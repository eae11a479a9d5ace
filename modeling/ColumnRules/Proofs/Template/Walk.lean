import ColumnRules.Proofs.ColumnSet
import ColumnRules.Proofs.Template.Nodes

/-!
# Binding a template step by step

A walk substitutes one map of bindings after the other. Each step takes the columns of the
subscripts that it binds, and what it puts in has no subscripts, so every subscript counts once,
under the first value that is bound to its index.
-/

set_option autoImplicit false

namespace ColumnRules

namespace Dictionary

variable {α : Type}

theorem get?_insertAll (d : Dictionary α) {entries : List (String × α)}
    (h : entries.Pairwise (·.1 < ·.1)) (name : String) :
    (d.insertAll entries).get? name = (lookup name entries).or (d.get? name) := by
  induction entries generalizing d with
  | nil => rfl
  | cons e entries ih =>
    obtain ⟨hfirst, hrest⟩ := List.pairwise_cons.mp h
    have hinsert : (d.insertAll (e :: entries)).get? name =
        (lookup name entries).or ((d.insert e.1 e.2).get? name) := ih (d.insert e.1 e.2) hrest
    rw [hinsert, get?_insert, lookup]
    by_cases hname : e.1 = name
    · have hlater : lookup name entries = none := by
        apply lookup_of_not_mem
        intro e' he' heq
        have hlt := hfirst e' he'
        rw [hname, heq] at hlt
        exact String.lt_irrefl name hlt
      rw [if_pos hname, if_pos hname, hlater]
      rfl
    · rw [if_neg hname, if_neg hname]

/-- Of two dictionaries the merged one answers from the second first. -/
theorem get?_merge (d other : Dictionary α) (name : String) :
    (d.merge other).get? name = (other.get? name).or (d.get? name) :=
  d.get?_insertAll other.ascending name

end Dictionary

/-- Each name with its value in the first of the maps that binds it. -/
def Bindings.first : List Bindings → Bindings
  | [] => .empty
  | bindings :: more => (first more).merge bindings

theorem Bindings.get?_first (steps : List Bindings) (name : String) :
    (first steps).get? name = steps.findSome? fun bindings => bindings.get? name := by
  induction steps with
  | nil => rfl
  | cons bindings more ih =>
    rw [first, Dictionary.get?_merge, ih, List.findSome?_cons]
    cases bindings.get? name <;> rfl

namespace Template

/-- The template at the end of a walk. -/
def walk (t : Template) : List Bindings → Template
  | [] => t
  | bindings :: more => (t.substitute bindings).walk more

/-- The templates along a walk, each with the bindings that are substituted into it. -/
def stages (t : Template) : List Bindings → List (Template × Bindings)
  | [] => []
  | bindings :: more => (t, bindings) :: (t.substitute bindings).stages more

theorem mem_indices {t : Template} {bindings : Bindings} {column : String} :
    column ∈ (t.indices bindings).names ↔
      ∃ s ∈ t.subscripts, ∃ value, bindings.get? s.2 = some value ∧ value.display = column := by
  rw [indices, ColumnSet.mem_ofList, indexList_eq, List.mem_filterMap]
  simp only [Option.map_eq_some_iff]

theorem mem_subscripts_substitute {t : Template} {bindings : Bindings} {s : String × String} :
    s ∈ (t.substitute bindings).subscripts ↔ s ∈ t.subscripts ∧ bindings.get? s.2 = none := by
  rw [subscripts_substitute, List.mem_filter, isUnbound, Option.isNone_iff_eq_none]

/-- A template stands for no column any more under bindings that were substituted. -/
theorem indices_substitute (t : Template) (bindings : Bindings) :
    (t.substitute bindings).indices bindings = .empty := by
  apply ColumnSet.ext_mem
  intro column
  constructor
  · intro h
    obtain ⟨s, hs, value, hbound, -⟩ := mem_indices.mp h
    rw [(mem_subscripts_substitute.mp hs).2] at hbound
    cases hbound
  · intro h
    cases h

/-- The first step of a walk counts what it binds, and the other steps what it leaves. -/
theorem mem_indices_first {t : Template} {bindings : Bindings} {more : List Bindings}
    {column : String} :
    column ∈ (t.indices (.first (bindings :: more))).names ↔
      column ∈ (t.indices bindings).names ∨
        column ∈ ((t.substitute bindings).indices (.first more)).names := by
  simp only [mem_indices, mem_subscripts_substitute, Bindings.first, Dictionary.get?_merge]
  constructor
  · rintro ⟨s, hs, value, hbound, hcolumn⟩
    cases hhere : bindings.get? s.2 with
    | some here =>
      rw [hhere, Option.some_or] at hbound
      exact .inl ⟨s, hs, value, hhere.trans hbound, hcolumn⟩
    | none =>
      rw [hhere, Option.none_or] at hbound
      exact .inr ⟨s, ⟨hs, hhere⟩, value, hbound, hcolumn⟩
  · rintro (⟨s, hs, value, hbound, hcolumn⟩ | ⟨s, ⟨hs, hfree⟩, value, hbound, hcolumn⟩)
    · exact ⟨s, hs, value, by rw [hbound, Option.some_or], hcolumn⟩
    · exact ⟨s, hs, value, by rw [hfree, Option.none_or, hbound], hcolumn⟩

theorem mem_indices_stages {t : Template} {steps : List Bindings} {column : String} :
    column ∈ (t.indices (.first steps)).names ↔
      ∃ stage ∈ t.stages steps, column ∈ (stage.1.indices stage.2).names := by
  induction steps generalizing t with
  | nil =>
    rw [mem_indices, stages]
    constructor
    · rintro ⟨s, -, value, hbound, -⟩
      cases hbound
    · rintro ⟨stage, hstage, -⟩
      cases hstage
  | cons bindings more ih =>
    rw [mem_indices_first, ih, stages]
    simp only [List.mem_cons, or_and_right, exists_or, exists_eq_left]

theorem subscripts_walk (t : Template) (steps : List Bindings) :
    (t.walk steps).subscripts =
      t.subscripts.filter fun s => steps.all fun bindings => isUnbound bindings s := by
  induction steps generalizing t with
  | nil => exact (List.filter_eq_self.mpr fun _ _ => rfl).symm
  | cons bindings more ih =>
    rw [walk, ih, subscripts_substitute, List.filter_filter]
    apply List.filter_congr
    intro s _
    rw [List.all_cons, Bool.and_comm]

/-- Along a walk every column is counted once, under the first value that its index is bound to, and
the subscripts whose index is never bound remain in order. -/
theorem indices_walk (t : Template) (steps : List Bindings) :
    (∀ name, (Bindings.first steps).get? name =
      steps.findSome? fun bindings => bindings.get? name) ∧
    ColumnSet.ofList ((t.stages steps).flatMap fun stage => (stage.1.indices stage.2).names) =
      t.indices (.first steps) ∧
    (t.walk steps).subscripts = t.subscripts.filter
      (fun s => steps.all fun bindings => (bindings.get? s.2).isNone) ∧
    ∀ bindings, (t.substitute bindings).indices bindings = .empty := by
  refine ⟨Bindings.get?_first steps, ?_, subscripts_walk t steps, t.indices_substitute⟩
  apply ColumnSet.ext_mem
  intro column
  rw [ColumnSet.mem_ofList, List.mem_flatMap, mem_indices_stages]

example :
    let t : Template := sequence [subscript "x" "i", object [("left", subscript "x" "j")]]
    let steps : List Bindings := [.ofList [("j", .object [("base", .string "x"),
      ("index", .string "i")])], .ofList [("i", .string "a"), ("j", .string "b")]]
    (t.walk steps).subscripts = [] ∧
      (t.indices (.first steps)).names = ["a", "\x7b\"base\":\"x\",\"index\":\"i\"\x7d"] := by
  decide +kernel

end Template

end ColumnRules
