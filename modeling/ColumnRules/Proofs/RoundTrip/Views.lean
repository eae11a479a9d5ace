import ColumnRules.Proofs.RoundTrip.Editing
import ColumnRules.Proofs.Template.Encoding
import ColumnRules.Proofs.Template.Substitution

/-!
# The views of an edited rule

An edit puts nothing into a rule but what its text says. The expression of the rule, its text, its
columns, its concrete condition and its JSON value all give the expression that was parsed.
-/

set_option autoImplicit false

namespace ColumnRules

theorem Bindings.isIdentity_identity (names : List String) : (identity names).IsIdentity := by
  intro name value hbound
  obtain ⟨other, -, hentry⟩ := List.mem_map.mp (Dictionary.mem_of_get?_ofList hbound)
  cases hentry
  rfl

theorem Bindings.IsIdentity.bindsLeaves {bindings : Bindings} (h : bindings.IsIdentity) :
    bindings.BindsLeaves := by
  intro name value hbound
  rw [h name value hbound]
  trivial

section Edited

variable {columns : List String} {e : Expr} (h : Accepted columns e)
include h

/-- The columns bound to themselves change no expression over them. -/
theorem Accepted.resolve_identity : e.resolve (.identity columns) = e := by
  apply Expr.mapLeaves_eq_self h.leaves
  intro leaf _ hleaf
  cases leaf with
  | literal x => rfl
  | var name => exact Template.resolveLeaf_var (Bindings.isIdentity_identity columns) name
  | subscript | binary | logical | sequence => exact hleaf.elim

theorem Accepted.render_subscripts (base : String) :
    (e.subscriptColumns base).render (.identity e.varNames.names) =
      e.render (.identity columns) := by
  have hleaves (names : List String) : (Bindings.identity names).BindsLeaves :=
    (Bindings.isIdentity_identity names).bindsLeaves
  rw [← Expr.render_resolve (hleaves _), h.resolve_subscripts, ← Expr.render_resolve (hleaves _),
    h.resolve_identity]

theorem Accepted.subscriptsOf (base : String) :
    (e.subscriptColumns base).Meets (Expr.subscriptsOf base) :=
  h.meets_subscripts base (fun _ _ => trivial) (fun _ _ _ _ => rfl) trivial fun _ => trivial

theorem Accepted.concrete_edited (base : String) (rule : Rule) :
    (rule.edited base e).concrete = .ofExpr e := by
  have hidentity := Bindings.isIdentity_identity e.varNames.names
  rw [Rule.concrete, Rule.edited, Template.substitute_ofExpr hidentity, h.resolve_subscripts]

end Edited

/-- An edit fails just as its text does not parse, and else every view of the edited rule gives
what the text says. Masses and label are kept. -/
theorem Rule.withText_views (rule : Rule) (text : String) (columns : List String) (base : String) :
    (∀ error, rule.withText text columns base = .error error ↔
      parse text columns = .error error) ∧
    ∀ e, parse text columns = .ok e → ∃ r, rule.withText text columns base = .ok r ∧
      r.condition.toExpr = .ok (e.mapLeaves (Expr.subscriptLeaf base)) ∧
      r.displayText = .ok (e.render (.identity columns)) ∧
      r.indices = e.varNames ∧
      r.concrete.toExpr = .ok e ∧
      Template.ofJson base r.condition.toJson = r.condition ∧
      r.mass = rule.mass ∧ r.label = rule.label := by
  constructor
  · intro error
    rw [withText]
    cases parse text columns with
    | error other => simp only [Except.error.injEq]
    | ok e => simp only [reduceCtorEq]
  · intro e hparse
    have haccepted := accepted_of_parse hparse
    have hexpr := haccepted.toExpr_edited base
    refine ⟨_, withText_of_parse rule hparse base, ?_, ?_, haccepted.indices_edited base rule,
      ?_, ?_, rfl, rfl⟩
    · rw [← Expr.subscriptColumns_eq]
      exact hexpr
    · simp only [displayText, expression, edited, hexpr, haccepted.render_subscripts base]
    · rw [haccepted.concrete_edited base]
      exact Template.toExpr_ofExpr haccepted.finite
    · exact Template.ofJson_toJson_ofExpr (haccepted.subscriptsOf base)

theorem Rule.withText_views_operator :
    parse "and < 1.0 b" ["and", "1.0 b"] =
      .ok (.binary (.var "and") (.compare .lt) (.var "1.0 b")) ∧
    (Expr.binary (.var "and") (.compare .lt) (.var "1.0 b")).render
      (.identity ["and", "1.0 b"]) = "(and < 1.0 b)" ∧
    ∃ r, (⟨.scalar .null, .empty, [.zero false], some "L"⟩ : Rule).withText "and < 1.0 b"
        ["and", "1.0 b"] "x" = .ok r ∧
      r.condition.toExpr =
        .ok (.binary (.subscript "x" "and") (.compare .lt) (.subscript "x" "1.0 b")) ∧
      r.displayText = .ok ((Expr.binary (.var "and") (.compare .lt) (.var "1.0 b")).render
        (.identity ["and", "1.0 b"])) ∧
      r.indices = ColumnSet.ofList ["and", "1.0 b"] ∧
      r.concrete.toExpr = .ok (.binary (.var "and") (.compare .lt) (.var "1.0 b")) ∧
      Template.ofJson "x" r.condition.toJson = r.condition ∧
      r.mass = [.zero false] ∧ r.label = some "L" := by
  have htokenize : tokenize "and < 1.0 b" ["and", "1.0 b"] =
      .ok [⟨.column "and", 0⟩, ⟨.symbol .lt, 4⟩, ⟨.column "1.0 b", 6⟩] := by
    decide +kernel
  have hparse : parse "and < 1.0 b" ["and", "1.0 b"] =
      .ok (.binary (.var "and") (.compare .lt) (.var "1.0 b")) := by
    rw [parse, htokenize]
    rfl
  refine ⟨hparse, by decide +kernel, ?_⟩
  exact (Rule.withText_views ⟨.scalar .null, .empty, [.zero false], some "L"⟩ "and < 1.0 b"
    ["and", "1.0 b"] "x").2 _ hparse

end ColumnRules
