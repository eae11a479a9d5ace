import Mathlib.Data.List.Forall2
import Mathlib.Data.List.Perm.Basic

/-!
# Fields by name

An object is the list of its fields. As long as no name repeats, which value a name has does not
depend on the order of the fields, so a relation of values carries over to objects whose fields
stand in another order.
-/

set_option autoImplicit false

namespace ColumnRules

variable {α β γ δ : Type}

theorem mem_of_find?_name {fields : List (String × α)} {name : String} {value : α}
    (h : (fields.find? fun f => f.1 == name).map (·.2) = some value) :
    (name, value) ∈ fields := by
  obtain ⟨f, hf, rfl⟩ := Option.map_eq_some_iff.mp h
  have hname : f.1 = name := by simpa using List.find?_some hf
  rw [← hname]
  exact List.mem_of_find?_eq_some hf

/-- The first field of a name is its only one. -/
theorem find?_name_eq_some {fields : List (String × α)} (h : (fields.map Prod.fst).Nodup)
    {name : String} {value : α} :
    (fields.find? fun f => f.1 == name).map (·.2) = some value ↔ (name, value) ∈ fields := by
  refine ⟨mem_of_find?_name, fun hmem => ?_⟩
  induction fields with
  | nil => cases hmem
  | cons f fields ih =>
    rw [List.map_cons, List.nodup_cons] at h
    rcases List.mem_cons.mp hmem with rfl | hmem
    · simp
    · have hne : f.1 ≠ name := by
        rintro rfl
        exact h.1 (List.mem_map.mpr ⟨_, hmem, rfl⟩)
      have hrest := ih h.2 hmem
      simpa [List.find?_cons, hne] using hrest

theorem find?_name_perm {fields others : List (String × α)} (h : (fields.map Prod.fst).Nodup)
    (hperm : fields.Perm others) (name : String) :
    (fields.find? fun f => f.1 == name).map (·.2) =
      (others.find? fun f => f.1 == name).map (·.2) := by
  have hothers : (others.map Prod.fst).Nodup := (hperm.map Prod.fst).nodup_iff.mp h
  apply Option.ext
  intro value
  rw [find?_name_eq_some h, find?_name_eq_some hothers, hperm.mem_iff]

/-! ## Lists related one by one -/

/-- A relation that determines the right side is the graph of a function. -/
theorem forall₂_iff_eq_map {R : α → β → Prop} {g : α → β} {as : List α}
    (h : ∀ a ∈ as, ∀ b, R a b ↔ b = g a) (bs : List β) :
    List.Forall₂ R as bs ↔ bs = as.map g := by
  induction as generalizing bs with
  | nil => rw [List.forall₂_nil_left_iff, List.map_nil]
  | cons a as ih =>
    have hrest := ih fun a ha => h a (List.mem_cons_of_mem _ ha)
    rw [List.forall₂_cons_left_iff, List.map_cons]
    constructor
    · rintro ⟨b, bs, hb, hbs, rfl⟩
      rw [(h a List.mem_cons_self b).mp hb, (hrest bs).mp hbs]
    · rintro rfl
      exact ⟨_, _, (h a List.mem_cons_self _).mpr rfl, (hrest _).mpr rfl, rfl⟩

theorem forall₂_imp_mem {R S : α → β → Prop} {as : List α} {bs : List β}
    (h : List.Forall₂ R as bs) (himp : ∀ a ∈ as, ∀ b, R a b → S a b) : List.Forall₂ S as bs := by
  have hmem := (List.forall₂_and_left as bs).mpr ⟨himp, h⟩
  exact hmem.imp fun a b hab => hab.1 b hab.2

theorem perm_flatMap {F : α → List γ} {G : β → List γ} {as : List α} {bs : List β}
    (h : List.Forall₂ (fun a b => (F a).Perm (G b)) as bs) :
    (as.flatMap F).Perm (bs.flatMap G) := by
  induction h with
  | nil => exact .nil
  | cons hab _ ih =>
    rw [List.flatMap_cons, List.flatMap_cons]
    exact hab.append ih

/-! ## Related fields -/

/-- Fields of the same name with related values. -/
inductive FieldRel (R : α → β → Prop) : String × α → String × β → Prop where
  | value {name : String} {a : α} {b : β} : R a b → FieldRel R (name, a) (name, b)

theorem fieldRel_iff {R : α → β → Prop} {f : String × α} {g : String × β} :
    FieldRel R f g ↔ f.1 = g.1 ∧ R f.2 g.2 := by
  constructor
  · rintro ⟨h⟩
    exact ⟨rfl, h⟩
  · obtain ⟨name, a⟩ := f
    obtain ⟨other, b⟩ := g
    rintro ⟨rfl, h⟩
    exact .value h

/-- The same names with related values, in any order. -/
inductive Rearranged (R : α → β → Prop) : List (String × α) → List (String × β) → Prop where
  | nil : Rearranged R [] []
  | cons {name : String} {a : α} {b : β} {fields : List (String × α)} {others : List (String × β)} :
      R a b → Rearranged R fields others → Rearranged R ((name, a) :: fields) ((name, b) :: others)
  | perm {fields : List (String × α)} {middle others : List (String × β)} :
      Rearranged R fields middle → middle.Perm others → Rearranged R fields others

namespace Rearranged

variable {R : α → β → Prop} {fields : List (String × α)} {others : List (String × β)}

theorem refl {R : α → α → Prop} {fields : List (String × α)} (h : ∀ f ∈ fields, R f.2 f.2) :
    Rearranged R fields fields := by
  induction fields with
  | nil => exact .nil
  | cons f fields ih =>
    exact .cons (h f List.mem_cons_self) (ih fun g hg => h g (List.mem_cons_of_mem _ hg))

variable (h : Rearranged R fields others)
include h

theorem perm_names : (fields.map Prod.fst).Perm (others.map Prod.fst) := by
  induction h with
  | nil => exact .nil
  | cons _ _ ih => exact ih.cons _
  | perm _ hperm ih => exact ih.trans (hperm.map _)

theorem rel_find?_name (hnames : (fields.map Prod.fst).Nodup) (name : String) :
    Option.Rel R ((fields.find? fun f => f.1 == name).map (·.2))
      ((others.find? fun f => f.1 == name).map (·.2)) := by
  induction h with
  | nil => exact .none
  | @cons other a b fields others hab _ ih =>
    rw [List.find?_cons, List.find?_cons]
    cases other == name with
    | true => exact .some hab
    | false => exact ih (List.nodup_cons.mp hnames).2
  | perm hmiddle hperm ih =>
    have hnames' := hmiddle.perm_names.nodup_iff.mp hnames
    rw [← find?_name_perm hnames' hperm]
    exact ih hnames

theorem imp_mem {S : α → β → Prop} (himp : ∀ f ∈ fields, ∀ b, R f.2 b → S f.2 b) :
    Rearranged S fields others := by
  induction h with
  | nil => exact .nil
  | cons hab _ ih =>
    obtain ⟨hfirst, hrest⟩ := List.forall_mem_cons.mp himp
    exact .cons (hfirst _ hab) (ih hrest)
  | perm _ hperm ih => exact .perm (ih himp) hperm

omit h

theorem map {S : γ → δ → Prop} {F : α → γ} {G : β → δ}
    (h : Rearranged (fun a b => S (F a) (G b)) fields others) :
    Rearranged S (fields.map fun f => (f.1, F f.2)) (others.map fun f => (f.1, G f.2)) := by
  induction h with
  | nil => exact .nil
  | cons hab _ ih => exact .cons hab ih
  | perm _ hperm ih => exact .perm ih (hperm.map _)

theorem perm_flatMap {F : α → List γ} {G : β → List γ}
    (h : Rearranged (fun a b => (F a).Perm (G b)) fields others) :
    (fields.flatMap fun f => F f.2).Perm (others.flatMap fun f => G f.2) := by
  induction h with
  | nil => exact .nil
  | cons hab _ ih =>
    rw [List.flatMap_cons, List.flatMap_cons]
    exact hab.append ih
  | perm _ hperm ih => exact ih.trans (hperm.flatMap_right _)

end Rearranged

end ColumnRules
