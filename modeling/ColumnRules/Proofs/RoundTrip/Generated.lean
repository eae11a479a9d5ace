import ColumnRules.Proofs.RoundTrip.Accepted
import ColumnRules.Rule

/-!
# Generated rules are shown and accepted

A generated condition joins any number of operands and binds its placeholders to columns and
numbers. Its text is read back as the chains of the condition with the placeholders replaced.
-/

set_option autoImplicit false

namespace ColumnRules

namespace Json

/-- JSON has no infinite numbers. -/
def IsNumber (value : Json) : Prop := ∃ x, value.toBinary64? = some x ∧ x.isFinite = true

def NamesColumn (columns : List String) (value : Json) : Prop :=
  ∃ word ∈ columns, word ≠ "" ∧ value = string word

end Json

/-- The leaves of a condition that is shown over the columns: finite numbers, names that are bound
to numbers or columns or are columns themselves, and subscripts that are bound to columns. -/
def Expr.IsShown (columns : List String) (bindings : Bindings) : Expr → Prop
  | literal x => x.isFinite = true
  | var name =>
    (∃ value, bindings.get? name = some value ∧ (value.IsNumber ∨ value.NamesColumn columns)) ∨
      bindings.get? name = none ∧ name ∈ columns ∧ name ≠ ""
  | subscript _ index => ∃ value, bindings.get? index = some value ∧ value.NamesColumn columns
  | _ => False

theorem Shows.number_displayText {columns : List String} {value : Json} {x : Binary64}
    (hvalue : value.toBinary64? = some x) (hx : x.isFinite = true) :
    Shows columns value.displayText (.literal x.shown) := by
  cases value with
  | int n =>
    cases hvalue
    rw [Binary64.shown_ofInt]
    exact .number (.whole (Decimal.allDigits_toDigits _)) (Binary64.ofText?_intText n) hx
  | float y =>
    cases hvalue
    exact .literal hx
  | null | bool | string | array | object => cases hvalue

theorem Shows.displayText {columns : List String} {value : Json}
    (h : value.IsNumber ∨ value.NamesColumn columns) :
    Shows columns value.displayText (Expr.unsignedZeroLeaf (Expr.ofShown value)) := by
  rcases h with ⟨x, hvalue, hx⟩ | ⟨word, hword, hne, rfl⟩
  · rw [Expr.ofShown, hvalue]
    exact .number_displayText hvalue hx
  · rw [Expr.ofShown_string]
    exact .column hword hne

theorem shows_resolved {columns : List String} {bindings : Bindings} {e : Expr}
    (h : e.IsShown columns bindings) : Shows columns (e.nestedText bindings)
      (Expr.unsignedZeroLeaf (Expr.resolveLeaf bindings e)) := by
  cases e with
  | literal x => exact .literal h
  | var name =>
    rcases h with ⟨value, hbound, hvalue⟩ | ⟨hfree, hword, hne⟩
    · simp only [Expr.nestedText, Expr.nameText, Expr.resolveLeaf, Expr.orShown, hbound]
      exact .displayText hvalue
    · simp only [Expr.nestedText, Expr.nameText, Expr.resolveLeaf, Expr.orShown, hfree]
      exact .column hword hne
  | subscript base index =>
    obtain ⟨value, hbound, hvalue⟩ := h
    simp only [Expr.nestedText, Expr.subscriptText, Expr.resolveLeaf, Expr.orShown, hbound]
    exact .displayText (.inr hvalue)
  | binary | logical | sequence => exact h.elim

theorem finite_resolved {columns : List String} {bindings : Bindings} {e : Expr}
    (h : e.IsShown columns bindings) :
    Expr.finiteLiterals.leaf (Expr.resolveLeaf bindings e) := by
  have hshows := shows_resolved h
  generalize Expr.resolveLeaf bindings e = leaf, e.nestedText bindings = s at hshows ⊢
  cases leaf with
  | literal x =>
    cases hshows with
    | number _ _ hx => rwa [Binary64.isFinite_shown] at hx
  | var | subscript | binary | logical | sequence => trivial

theorem parse_render_bound {columns : List String} {bindings : Bindings} {e : Expr}
    (hplain : Plain columns)
    (hleaves : e.Meets ⟨Expr.IsShown columns bindings, fun n => 0 < n, fun _ => True⟩)
    (hvalues : e.comparesValues = true) (hne : e ≠ .sequence [])
    (hheight : e.chainHeight ≤ maxHeight) :
    parse (e.render bindings) columns = .ok (e.resolve bindings).chained.unsignedZeros := by
  have hresolve := Expr.keepsLeaves_resolveLeaf bindings
  have hunsigned := Expr.keepsLeaves_unsignedZeroLeaf
  have hshown : e.Meets (shownAs columns bindings
      fun e => Expr.unsignedZeroLeaf (Expr.resolveLeaf bindings e)) :=
    hleaves.mono (fun _ _ => shows_resolved) (fun _ => id) (fun _ => id)
  rw [parse_render hplain hshown (hunsigned.comp hresolve) hne hvalues hheight,
    ← Expr.mapLeaves_mapLeaves hresolve, Expr.chained_mapLeaves hunsigned]
  rfl

/-- The text that a generated rule is shown as is accepted. -/
theorem Rule.parse_displayText {rule : Rule} {columns : List String} {e : Expr}
    (hplain : Plain columns) (he : rule.condition.toExpr = .ok e)
    (hleaves : e.Meets ⟨Expr.IsShown columns rule.bindings, fun n => 0 < n, fun _ => True⟩)
    (hvalues : e.comparesValues = true) (hne : e ≠ .sequence [])
    (hheight : e.chainHeight ≤ maxHeight) :
    ∃ text f, rule.displayText = .ok text ∧ parse text columns = .ok f ∧
      f.sameValue (e.resolve rule.bindings).chained = true := by
  have hfinite : (e.resolve rule.bindings).Meets Expr.finiteLiterals :=
    (Expr.meets_mapLeaves (Expr.keepsLeaves_resolveLeaf rule.bindings) e).mpr
      (hleaves.mono (fun _ _ => finite_resolved) (fun _ _ => trivial) (fun _ => id))
  refine ⟨e.render rule.bindings, _, ?_, parse_render_bound hplain hleaves hvalues hne hheight,
    Expr.sameValue_unsignedZeros (Expr.meets_chained hfinite)⟩
  simp only [displayText, expression, he]

theorem Rule.parse_displayText_joined :
    let rule : Rule := ⟨.object [("op", .text "or"), ("values", .sequence
      [.subscript "X" "i", .text "t", .text "b"])],
      (Dictionary.empty.insert "i" (.string "a")).insert "t" (.int (-3)), [], none⟩
    rule.displayText = .ok "(a || -3 || b)" ∧
    ∃ text f, rule.displayText = .ok text ∧ parse text ["a", "b"] = .ok f ∧
      f.sameValue ((Expr.logical .or [.subscript "X" "i", .var "t", .var "b"]).resolve
        rule.bindings).chained = true := by
  intro rule
  have hplain : Plain ["a", "b"] := by decide +kernel
  have htext : (Expr.logical .or [.subscript "X" "i", .var "t", .var "b"]).render
      rule.bindings = "(a || -3 || b)" := by decide +kernel
  refine ⟨congrArg Except.ok htext, ?_⟩
  refine Rule.parse_displayText hplain rfl ⟨by decide, ?_, ?_, ?_, trivial⟩ rfl nofun (by decide)
  · exact ⟨.string "a", by simp [rule], "a", by simp, by simp, rfl⟩
  · exact .inl ⟨.int (-3), by simp [rule], .inl ⟨_, rfl, by decide +kernel⟩⟩
  · exact .inr ⟨by simp [rule], by simp, by simp⟩

end ColumnRules
