import ColumnRules.Proofs.RoundTrip.Rendering
import ColumnRules.Proofs.Token.Declared

/-!
# Accepted text is shown and accepted again

What parses is shown, with every name bound to itself, as text that parses to the same expression
with its sequences read as conjunctions.
-/

set_option autoImplicit false

namespace ColumnRules

theorem Shows.literal {columns : List String} {x : Binary64} (h : x.isFinite = true) :
    Shows columns x.ruleText (.literal x.shown) := by
  have hread := Binary64.ofText?_ruleText h
  obtain ⟨negative, s, htext, hs⟩ := Binary64.numeral_ruleText h
  rw [htext] at hread ⊢
  exact .number hs hread (by rw [Binary64.isFinite_shown, h])

theorem Bindings.get?_identity {names : List String} {name : String} (h : name ∈ names) :
    (Bindings.identity names).get? name = some (.string name) := by
  have hinsert : ∀ (names : List String) (d : Bindings),
      (name ∈ names ∨ d.get? name = some (.string name)) →
      (d.insertAll (names.map fun name => (name, Json.string name))).get? name =
        some (.string name) := by
    intro names
    induction names with
    | nil =>
      rintro d (h | h)
      · cases h
      · exact h
    | cons other names ih =>
      intro d h
      apply ih (d.insert other (.string other))
      rw [Dictionary.get?_insert]
      by_cases heq : other = name
      · exact .inr (by rw [if_pos heq, heq])
      · rw [if_neg heq]
        exact h.imp_left fun hmem => (List.mem_cons.mp hmem).resolve_left (Ne.symm heq)
  exact hinsert names _ (.inl h)

/-- Under the identity a declared leaf shows itself, zero without its sign. -/
theorem shows_identity {columns : List String} {e : Expr} (h : e.IsDeclared columns) :
    Shows columns (e.nestedText (.identity columns)) (Expr.unsignedZeroLeaf e) := by
  cases e with
  | literal x => exact .literal h
  | var name =>
    have hbound := Bindings.get?_identity h.1
    have htext : Expr.nestedText (.identity columns) (.var name) = name.toList := by
      simp only [Expr.nestedText, Expr.nameText, hbound, Json.displayText]
    rw [htext]
    exact .column h.1 h.2
  | subscript | binary | logical | sequence => exact h.elim

/-- What is known of an expression that was parsed over the columns. -/
structure Accepted (columns : List String) (e : Expr) : Prop where
  leaves : e.Meets ⟨Expr.IsDeclared columns, fun n => n = 2, fun _ => True⟩
  values : e.comparesValues = true
  height : e.chainHeight ≤ maxHeight

theorem accepted_of_parse {source : String} {columns : List String} {e : Expr}
    (h : parse source columns = .ok e) : Accepted columns e := by
  obtain ⟨lexemes, htokenize⟩ := tokenize_of_parse h
  obtain ⟨hderives, hbounded, hvalues⟩ := derives_of_parse htokenize h
  have hleaves := hderives.meets (declared_of_tokenize htokenize)
  have hheight := e.chainHeight_le_height
    (hleaves.mono (fun _ _ _ => trivial) (fun n hn => Nat.le_of_eq hn) (fun _ => id))
  exact ⟨hleaves, hvalues, Nat.le_trans hheight hbounded⟩

namespace Accepted

variable {columns : List String} {e : Expr} (h : Accepted columns e)
include h

theorem finite : e.Meets Expr.finiteLiterals := by
  refine h.leaves.mono ?_ (fun _ _ => trivial) (fun _ => id)
  intro leaf _ hleaf
  cases leaf with
  | literal x => exact hleaf
  | var | subscript | binary | logical | sequence => trivial

theorem chained_eq_conjoin : e.chained = e.conjoin :=
  e.chained_eq_conjoin (h.leaves.mono (fun _ _ _ => trivial) (fun _ => id) (fun _ => id))

end Accepted

/-- An accepted expression is shown as text that is accepted again, whatever its height. -/
theorem parse_render_of_parse {source : String} {columns : List String} {e : Expr}
    (hplain : Plain columns) (h : parse source columns = .ok e) (hne : e ≠ .sequence []) :
    ∃ f, parse (e.render (.identity columns)) columns = .ok f ∧ f.sameValue e.conjoin = true := by
  have haccepted := accepted_of_parse h
  have hshown : e.Meets (shownAs columns (.identity columns) Expr.unsignedZeroLeaf) :=
    haccepted.leaves.mono (fun _ _ => shows_identity) (fun n hn => hn ▸ Nat.two_pos) (fun _ => id)
  rw [parse_render hplain hshown Expr.keepsLeaves_unsignedZeroLeaf hne haccepted.values
    haccepted.height, Expr.chained_mapLeaves Expr.keepsLeaves_unsignedZeroLeaf,
    haccepted.chained_eq_conjoin]
  refine ⟨e.conjoin.unsignedZeros, rfl, Expr.sameValue_unsignedZeros ?_⟩
  rw [← haccepted.chained_eq_conjoin]
  exact Expr.meets_chained haccepted.finite

theorem parse_render_of_parse_list :
    let e : Expr := .sequence [.binary (.var "a") (.compare .lt) (.literal (.zero true)),
      .var "b c"]
    parse "[a < -0, b c]" ["a", "b c"] = .ok e ∧
      e.render (.identity ["a", "b c"]) = "(a < 0) && b c" ∧
      ∃ f, parse (e.render (.identity ["a", "b c"])) ["a", "b c"] = .ok f ∧
        f.sameValue e.conjoin = true := by
  intro e
  have hplain : Plain ["a", "b c"] := by decide +kernel
  have htokenize : tokenize "[a < -0, b c]" ["a", "b c"] =
      .ok [⟨.leftBracket, 0⟩, ⟨.column "a", 1⟩, ⟨.symbol .lt, 3⟩, ⟨.number (.zero true), 5⟩,
        ⟨.comma, 7⟩, ⟨.column "b c", 9⟩, ⟨.rightBracket, 12⟩] := by
    decide +kernel
  have hparse : parse "[a < -0, b c]" ["a", "b c"] = .ok e := by
    rw [parse, htokenize]
    rfl
  have htext : e.render (.identity ["a", "b c"]) = "(a < 0) && b c" := by decide +kernel
  exact ⟨hparse, htext, parse_render_of_parse hplain hparse (by simp [e])⟩

end ColumnRules
