import ColumnRules.Proofs.Template.Encoding
import ColumnRules.Proofs.Template.Exact

/-!
# Expressions recovered from their templates

The template of an expression writes the expression again, also after it was sent as JSON. Only a
literal that is no number of JSON is lost: it is sent as null, and null is what is reported then.
-/

set_option autoImplicit false

namespace ColumnRules.Template

/-- The template writes the expression, or reports null if a literal of it is not finite. -/
structure Recovers (t : Template) (e : Expr) : Prop where
  finite : e.Meets Expr.finiteLiterals → t.toExpr = .ok e
  lost : ¬ e.Meets Expr.finiteLiterals → t.toExpr = .error (.unrecognized .null)

/-- The first operand with a lost literal is the one that is reported. -/
theorem toExprs_ofExprs_of_lost {es : List Expr}
    (h : ∀ e ∈ es, ¬ e.Meets Expr.finiteLiterals →
      (ofExpr e).toExpr = .error (.unrecognized .null))
    (hlost : ¬ Expr.AllMeet Expr.finiteLiterals es) :
    toExprs (ofExprs es) = .error (.unrecognized .null) := by
  induction es with
  | nil => exact absurd trivial hlost
  | cons e es ih =>
    rw [ofExprs, toExprs]
    by_cases hfirst : e.Meets Expr.finiteLiterals
    · have hrest : ¬ Expr.AllMeet Expr.finiteLiterals es := fun hall => hlost ⟨hfirst, hall⟩
      rw [toExpr_ofExpr hfirst, ih (fun x hx => h x (List.mem_cons_of_mem _ hx)) hrest]
    · rw [h e List.mem_cons_self hfirst]

theorem toExpr_ofExpr_of_lost {e : Expr} (h : ¬ e.Meets Expr.finiteLiterals) :
    (ofExpr e).toExpr = .error (.unrecognized .null) := by
  induction e using Expr.induction with
  | literal x =>
    have hx : ¬ x.isFinite = true := h
    simp only [ofExpr, hx, Bool.false_eq_true, if_false, toExpr, Json.toBinary64?]
  | var | subscript => exact absurd trivial h
  | binary left op right ihl ihr =>
    rw [ofExpr, toExpr_binaryFields]
    by_cases hleft : left.Meets Expr.finiteLiterals
    · rw [toExpr_ofExpr hleft, ihr fun hright => h ⟨hleft, hright⟩]
    · rw [ihl hleft]
  | logical op operands ih =>
    have hlost : ¬ Expr.AllMeet Expr.finiteLiterals operands := fun hall => h ⟨trivial, hall⟩
    rw [ofExpr, toExpr_logicalFields, toExprs_ofExprs_of_lost ih hlost]
  | sequence items ih =>
    have hlost : ¬ Expr.AllMeet Expr.finiteLiterals items := fun hall => h ⟨trivial, hall⟩
    rw [ofExpr, toExpr, toExprs_ofExprs_of_lost ih hlost]

theorem recovers_ofExpr (e : Expr) : (ofExpr e).Recovers e where
  finite := toExpr_ofExpr
  lost := toExpr_ofExpr_of_lost

/-- An expression is recovered from its template, and as long as all its subscripts are of the base
its template is the same after a trip through JSON. -/
theorem recovers_trip (e : Expr) :
    (ofExpr e).Recovers e ∧
      (TemplateError.unrecognized .null).message = "unrecognized template node: null" ∧
      ∀ base, e.Meets (Expr.subscriptsOf base) →
        ofJson base (ofExpr e).toJson = ofExpr e ∧
          (ofJson base (ofExpr e).toJson).Recovers e := by
  refine ⟨recovers_ofExpr e, rfl, ?_⟩
  intro base hbase
  have htrip : ofJson base (ofExpr e).toJson = ofExpr e := ofJson_toJson_ofExpr hbase
  refine ⟨htrip, ?_⟩
  rw [htrip]
  exact recovers_ofExpr e

/-- Names that look like operators and fields are names, and of two lost literals one is reported. -/
theorem recovers_trip_lost :
    let named : Expr := .sequence [.logical .or [.literal (.zero true), .binary (.subscript "x" "op")
      (.arith .sub) (.var "and")], .logical .and []]
    let lost : Expr := .binary (.var "left") (.compare .le) (.logical .and [.literal .nan, named,
      .literal (.infinite true)])
    named.Meets Expr.finiteLiterals ∧ named.Meets (Expr.subscriptsOf "x") ∧
      (ofJson "x" (ofExpr named).toJson).toExpr = .ok named ∧
      ¬ lost.Meets Expr.finiteLiterals ∧ lost.Meets (Expr.subscriptsOf "x") ∧
      ofJson "x" (ofExpr lost).toJson = ofExpr lost ∧
      (ofExpr lost).toExpr = .error (.unrecognized .null) := by
  intro named lost
  have hnamed : named.Meets Expr.finiteLiterals := by
    simp only [named, Expr.Meets, Expr.AllMeet, Expr.finiteLiterals, and_true, true_and]
    rfl
  have hlost : ¬ lost.Meets Expr.finiteLiterals := by
    rintro ⟨-, -, hnan, -⟩
    cases hnan
  have hbase : named.Meets (Expr.subscriptsOf "x") := by
    simp [named, Expr.Meets, Expr.AllMeet, Expr.subscriptsOf]
  have hbase' : lost.Meets (Expr.subscriptsOf "x") :=
    ⟨trivial, trivial, trivial, hbase, trivial, trivial⟩
  obtain ⟨-, -, hnamedTrip⟩ := recovers_trip named
  obtain ⟨hrecovers, -, hlostTrip⟩ := recovers_trip lost
  exact ⟨hnamed, hbase, (hnamedTrip "x" hbase).2.finite hnamed, hlost, hbase',
    (hlostTrip "x" hbase').1, hrecovers.lost hlost⟩

end ColumnRules.Template
