import ColumnRules.Proofs.RoundTrip.Views
import ColumnRules.Proofs.Template.Contents
import ColumnRules.Proofs.Template.Walk

/-!
# Sound rules

A rule is sound over a base if its condition has only subscripts of the base, no object that
repeats a name and no scalar but finite numbers, truth values and null, and if its bindings bring
in nothing else. Each way to make a condition and each change of a rule gives a sound rule.
-/

set_option autoImplicit false

namespace ColumnRules

namespace Json

/-- An object repeats no name and a number is finite. -/
def IsRegular : Json → Prop
  | object fields => (fields.map Prod.fst).Nodup
  | json => ∀ x, json.toBinary64? = some x → x.isFinite = true

/-- Every value inside the JSON value is regular. -/
def IsSound (json : Json) : Prop := ∀ node ∈ json.nodes, node.IsRegular

theorem IsRegular.isFinite {json : Json} (h : json.IsRegular) {x : Binary64}
    (hx : json.toBinary64? = some x) : x.isFinite = true := by
  cases json with
  | object => cases hx
  | null | bool | int | float | string | array => exact h x hx

theorem IsSound.item {items : List Json} (h : (array items).IsSound) {json : Json}
    (hitem : json ∈ items) : json.IsSound :=
  fun node hnode => h node (mem_nodes_item hitem hnode)

theorem IsSound.field {fields : List (String × Json)} (h : (object fields).IsSound)
    {f : String × Json} (hf : f ∈ fields) : f.2.IsSound :=
  fun node hnode => h node (mem_nodes_field hf hnode)

theorem isSound_string (s : String) : (string s).IsSound :=
  List.forall_mem_singleton.mpr fun _ hx => by cases hx

end Json

namespace Template

/-- What the condition of a sound rule contains. -/
def sound (base : String) : Demand where
  base other := other = base
  names := List.Nodup
  value json := json.IsScalar ∧ json.IsRegular

variable {base : String}

theorem supplied_sound {json : Json} (h : json.IsRegular) : (sound base).Supplied json := by
  cases json with
  | array | string => trivial
  | object fields => exact h
  | null | bool | int | float => exact ⟨trivial, h⟩

/-- A literal that JSON cannot write becomes null. -/
theorem sound_ofExpr {e : Expr} (h : e.Meets (Expr.subscriptsOf base)) :
    (ofExpr e).Meets (sound base) := by
  have hall : ∀ es : List Expr, (∀ e ∈ es, (ofExpr e).Meets (sound base)) →
      (sequence (ofExprs es)).Meets (sound base) := by
    intro es hes
    rw [ofExprs_eq, meets_sequence, List.forall_mem_map]
    exact hes
  induction e using Expr.induction with
  | literal x =>
    rw [ofExpr, meets_scalar]
    split
    · rename_i hx
      exact ⟨trivial, fun y hy => by cases hy; exact hx⟩
    · exact ⟨trivial, fun y hy => by cases hy⟩
  | var name => exact meets_text name
  | subscript other index => exact meets_subscript.mpr h
  | binary left op right ihl ihr =>
    rw [ofExpr, meets_object]
    have hnames : ["left", "op", "right"].Nodup := by decide
    refine ⟨hnames, ?_⟩
    simp only [List.forall_mem_cons]
    exact ⟨ihl h.1, meets_text _, ihr h.2, List.forall_mem_nil _⟩
  | logical op operands ih =>
    have hmeet := Expr.allMeet_iff.mp h.2
    rw [ofExpr, meets_object]
    have hnames : ["op", "values"].Nodup := by decide
    refine ⟨hnames, ?_⟩
    simp only [List.forall_mem_cons]
    exact ⟨meets_text _, hall operands fun e he => ih e he (hmeet e he), List.forall_mem_nil _⟩
  | sequence items ih =>
    have hmeet := Expr.allMeet_iff.mp h.2
    rw [ofExpr]
    exact hall items fun e he => ih e he (hmeet e he)

/-- The expression of a sound condition has no literal but the finite numbers of its scalars. -/
theorem finite_of_toExpr {t : Template} (h : t.Meets (sound base)) {e : Expr}
    (he : t.toExpr = .ok e) : e.Meets Expr.finiteLiterals := by
  have hall : ∀ items : List Template,
      (∀ t ∈ items, ∀ {e}, t.toExpr = .ok e → e.Meets Expr.finiteLiterals) →
      ∀ {es}, toExprs items = .ok es → Expr.AllMeet Expr.finiteLiterals es := by
    intro items hitems
    induction items with
    | nil =>
      intro es hes
      cases hes
      trivial
    | cons t ts ih =>
      intro es hes
      rw [toExprs] at hes
      split at hes
      · cases hes
      · cases hes
      · rename_i ht hts
        cases hes
        exact ⟨hitems t List.mem_cons_self ht,
          ih (fun t ht => hitems t (List.mem_cons_of_mem _ ht)) hts⟩
  induction t using Template.induction generalizing e with
  | subscript | text =>
    cases he
    trivial
  | scalar value =>
    rw [toExpr] at he
    split at he
    · rename_i x hx
      cases he
      exact (meets_scalar.mp h).2.isFinite hx
    · cases he
  | sequence items ih =>
    have hitems := meets_sequence.mp h
    rw [toExpr] at he
    split at he
    · cases he
    · rename_i es hes
      cases he
      exact ⟨trivial, hall items (fun t ht => ih t ht (hitems t ht)) hes⟩
  | object fields ih =>
    have hfields := (meets_object.mp h).2
    have hfield : ∀ {name t}, field? name fields = some t →
        ∀ {e}, t.toExpr = .ok e → e.Meets Expr.finiteLiterals := by
      intro name t ht
      exact ih _ (mem_of_field? ht) (hfields _ (mem_of_field? ht))
    cases writes_of_toExpr he with
    | binary _ _ hleft hright hl hr => exact ⟨hfield hleft hl, hfield hright hr⟩
    | logical _ _ _ hvalues hes =>
      have hsequence := hfield hvalues (toExpr_sequence.mpr hes)
      exact ⟨trivial, hsequence.2⟩

end Template

namespace Bindings

def IsSound (bindings : Bindings) : Prop :=
  ∀ name value, bindings.get? name = some value → value.IsSound

variable {bindings : Bindings} (h : bindings.IsSound)
include h

theorem IsSound.merge {other : Bindings} (hother : other.IsSound) :
    IsSound (bindings.merge other) := by
  intro name value hvalue
  rw [Dictionary.get?_merge] at hvalue
  rcases Option.or_eq_some_iff.mp hvalue with hvalue | ⟨-, hvalue⟩
  · exact hother name value hvalue
  · exact h name value hvalue

theorem IsSound.erase (name : String) : IsSound (bindings.erase name) := by
  intro other value hvalue
  rw [Dictionary.get?_erase] at hvalue
  split at hvalue
  · cases hvalue
  · exact h other value hvalue

omit h in
theorem isSound_identity (names : List String) : (identity names).IsSound := by
  intro name value hvalue
  rw [isIdentity_identity names name value hvalue]
  exact Json.isSound_string name

end Bindings

namespace Rule

structure IsSound (base : String) (rule : Rule) : Prop where
  condition : rule.condition.Meets (Template.sound base)
  bindings : rule.bindings.IsSound

variable {base : String}

theorem isSound_ofJson {condition : Json} {bindings : Bindings} (hcondition : condition.IsSound)
    (hbindings : bindings.IsSound) (mass : List Binary64) (label : Option String) :
    (⟨.ofJson base condition, bindings, mass, label⟩ : Rule).IsSound base where
  condition := Template.meets_ofJson rfl fun node hnode =>
    Template.supplied_sound (hcondition node hnode)
  bindings := hbindings

/-- Whatever the rule was, an edit with text makes it sound. -/
theorem isSound_withText {rule edited : Rule} {text : String} {columns : List String}
    (h : rule.withText text columns base = .ok edited) : edited.IsSound base := by
  rw [withText] at h
  split at h
  · cases h
  · rename_i e hparse
    cases h
    exact ⟨Template.sound_ofExpr ((accepted_of_parse hparse).subscriptsOf base),
      Bindings.isSound_identity _⟩

namespace IsSound

variable {rule : Rule} (h : rule.IsSound base)
include h

theorem bind {bindings : Bindings} (hbindings : bindings.IsSound) :
    (rule.bind bindings).IsSound base :=
  ⟨h.condition, h.bindings.merge hbindings⟩

theorem unbind (name : String) : (rule.unbind name).IsSound base :=
  ⟨h.condition, h.bindings.erase name⟩

theorem settle : rule.settle.IsSound base where
  condition := h.condition.substitute fun name value hvalue node hnode =>
    Template.supplied_sound (h.bindings name value hvalue node hnode)
  bindings := h.bindings

end IsSound

end Rule

end ColumnRules
