import ColumnRules.Proofs.Grouping.Keys
import Mathlib.Data.List.Infix

/-!
# Groups partition the rules

Placing one rule after the other keeps the groups the partition of the positions by key, in the
order of their first members. Different column sets have different keys, so the groups of a rule
set are the partition by column set.
-/

set_option autoImplicit false

namespace ColumnRules

namespace RuleGroup

/-- The first member of one group stands before the first member of the other. -/
def Before (g h : RuleGroup) : Prop :=
  ∃ i j, g.members.head? = some i ∧ h.members.head? = some j ∧ i < j

/-- A group after a position was placed: it gains the position if the key is its own. -/
def gain (key : String) (position : Nat) (g : RuleGroup) : RuleGroup :=
  if g.key = key then ⟨g.key, g.members ++ [position]⟩ else g

@[simp] theorem key_gain (key : String) (position : Nat) (g : RuleGroup) :
    (g.gain key position).key = g.key := by
  unfold gain
  split <;> rfl

theorem head?_gain {key : String} {position i : Nat} {g : RuleGroup}
    (h : g.members.head? = some i) : (g.gain key position).members.head? = some i := by
  unfold gain
  split
  · rw [List.head?_append, h, Option.some_or]
  · exact h

theorem gain_of_ne {key : String} {position : Nat} {g : RuleGroup} (h : g.key ≠ key) :
    g.gain key position = g := if_neg h

theorem Before.gain {key : String} {position : Nat} {g h : RuleGroup} (hbefore : g.Before h) :
    (g.gain key position).Before (h.gain key position) := by
  obtain ⟨i, j, hi, hj, hlt⟩ := hbefore
  exact ⟨i, j, head?_gain hi, head?_gain hj, hlt⟩

/-- A key that has a group adds to that group alone. -/
theorem place_of_mem {key : String} {position : Nat} {groups : List RuleGroup}
    (hdistinct : (groups.map RuleGroup.key).Nodup) (h : key ∈ groups.map RuleGroup.key) :
    place key position groups = groups.map (gain key position) := by
  induction groups with
  | nil => cases h
  | cons g groups ih =>
    rw [List.map_cons, List.nodup_cons] at hdistinct
    rw [place, List.map_cons]
    by_cases hkey : g.key = key
    · have hothers : ∀ g' ∈ groups, g'.gain key position = g' := by
        intro g' hg'
        apply gain_of_ne
        rintro rfl
        exact hdistinct.1 (hkey ▸ List.mem_map_of_mem hg')
      rw [if_pos hkey, List.map_congr_left hothers, List.map_id', gain, if_pos hkey]
    · have hrest : key ∈ groups.map RuleGroup.key :=
        (List.mem_cons.mp h).resolve_left fun heq => hkey heq.symm
      rw [if_neg hkey, ih hdistinct.2 hrest, gain_of_ne hkey]

/-- A new key opens a group behind all others. -/
theorem place_of_not_mem {key : String} {position : Nat} {groups : List RuleGroup}
    (h : key ∉ groups.map RuleGroup.key) :
    place key position groups = groups ++ [⟨key, [position]⟩] := by
  induction groups with
  | nil => rfl
  | cons g groups ih =>
    rw [List.map_cons, List.mem_cons, not_or] at h
    rw [place, if_neg (Ne.symm h.1), ih h.2, List.cons_append]

/-- Placing a position loses no member and adds that position. -/
theorem place_members (key : String) (position : Nat) (groups : List RuleGroup) :
    ((place key position groups).flatMap RuleGroup.members).Perm
      (position :: groups.flatMap RuleGroup.members) := by
  induction groups with
  | nil => exact .refl _
  | cons g groups ih =>
    rw [place, List.flatMap_cons]
    split
    · rw [List.flatMap_cons, List.append_assoc]
      exact List.perm_middle
    · rw [List.flatMap_cons]
      exact (ih.append_left g.members).trans List.perm_middle

end RuleGroup

/-- The groups of the positions of the keys that were placed so far. -/
structure Placed (keys : List (Option String)) (gs : RuleGroups) : Prop where
  once : (gs.groups.flatMap RuleGroup.members ++ gs.unindexed).Perm (List.range keys.length)
  unindexed : gs.unindexed = keys.findIdxs (· == none)
  members : ∀ g ∈ gs.groups, g.members = keys.findIdxs (· == some g.key)
  inhabited : ∀ g ∈ gs.groups, some g.key ∈ keys
  complete : ∀ key, some key ∈ keys → key ∈ gs.groups.map RuleGroup.key
  distinct : (gs.groups.map RuleGroup.key).Nodup
  ordered : gs.groups.Pairwise RuleGroup.Before

theorem findIdxs_append_singleton (keys : List (Option String)) (key other : Option String) :
    (keys ++ [key]).findIdxs (· == other) =
      keys.findIdxs (· == other) ++ if key = other then [keys.length] else [] := by
  rw [List.findIdxs_append, List.findIdxs_singleton, Nat.zero_add]
  simp only [beq_iff_eq]

namespace Placed

theorem empty : Placed [] .empty where
  once := .refl _
  unindexed := rfl
  members _ hg := absurd hg List.not_mem_nil
  inhabited _ hg := absurd hg List.not_mem_nil
  complete _ hkey := absurd hkey List.not_mem_nil
  distinct := .nil
  ordered := .nil

variable {keys : List (Option String)} {gs : RuleGroups} (h : Placed keys gs)
include h

theorem exists_head? {g : RuleGroup} (hg : g ∈ gs.groups) :
    ∃ i, g.members.head? = some i ∧ i < keys.length := by
  have hne : g.members ≠ [] := by
    rw [h.members g hg, ne_eq, List.findIdxs_eq_nil_iff]
    intro hnone
    have hfalse := hnone _ (h.inhabited g hg)
    rw [beq_self_eq_true] at hfalse
    cases hfalse
  obtain ⟨i, is, hmembers⟩ := List.exists_cons_of_ne_nil hne
  refine ⟨i, by rw [hmembers, List.head?_cons], ?_⟩
  have hi : i ∈ keys.findIdxs (· == some g.key) := by
    rw [← h.members g hg, hmembers]
    exact List.mem_cons_self
  exact (List.mem_findIdxs_iff_exists_getElem_pos.mp hi).1

theorem add_none : Placed (keys ++ [none]) (gs.add keys.length none) where
  once := by
    rw [List.length_append, List.length_singleton, List.range_succ, RuleGroups.add,
      ← List.append_assoc]
    exact h.once.append_right _
  unindexed := by
    rw [RuleGroups.add, h.unindexed, findIdxs_append_singleton, if_pos rfl]
  members g hg := by
    rw [findIdxs_append_singleton, if_neg nofun, List.append_nil]
    exact h.members g hg
  inhabited g hg := List.mem_append_left _ (h.inhabited g hg)
  complete key hkey := h.complete key (by simpa using hkey)
  distinct := h.distinct
  ordered := h.ordered

theorem add_once (key : String) :
    ((gs.add keys.length (some key)).groups.flatMap RuleGroup.members ++
      (gs.add keys.length (some key)).unindexed).Perm (List.range (keys ++ [some key]).length) := by
  rw [List.length_append, List.length_singleton, List.range_succ]
  have hplace := RuleGroup.place_members key keys.length gs.groups
  have hfront := (hplace.append_right gs.unindexed).trans (h.once.cons keys.length)
  exact hfront.trans (List.perm_append_singleton _ _).symm

theorem add_unindexed (key : String) :
    (gs.add keys.length (some key)).unindexed = (keys ++ [some key]).findIdxs (· == none) := by
  rw [findIdxs_append_singleton, if_neg nofun, List.append_nil]
  exact h.unindexed

theorem members_gain (key : String) {g : RuleGroup} (hg : g ∈ gs.groups) :
    (g.gain key keys.length).members =
      (keys ++ [some key]).findIdxs (· == some (g.gain key keys.length).key) := by
  rw [findIdxs_append_singleton, RuleGroup.key_gain, ← h.members g hg]
  unfold RuleGroup.gain
  by_cases hkey : g.key = key
  · rw [if_pos hkey, if_pos (congrArg some hkey.symm)]
  · rw [if_neg hkey, if_neg fun heq => hkey (Option.some.inj heq).symm, List.append_nil]

theorem add_old {key : String} (hkey : key ∈ gs.groups.map RuleGroup.key) :
    Placed (keys ++ [some key]) (gs.add keys.length (some key)) := by
  have hgroups : (gs.add keys.length (some key)).groups =
      gs.groups.map (RuleGroup.gain key keys.length) := RuleGroup.place_of_mem h.distinct hkey
  have hkeys : (gs.groups.map (RuleGroup.gain key keys.length)).map RuleGroup.key =
      gs.groups.map RuleGroup.key := by
    rw [List.map_map]
    exact List.map_congr_left fun g _ => RuleGroup.key_gain _ _ _
  refine ⟨h.add_once key, h.add_unindexed key, ?_, ?_, ?_, ?_, ?_⟩ <;> rw [hgroups]
  · intro g' hg'
    obtain ⟨g, hg, rfl⟩ := List.mem_map.mp hg'
    exact h.members_gain key hg
  · intro g' hg'
    obtain ⟨g, hg, rfl⟩ := List.mem_map.mp hg'
    rw [RuleGroup.key_gain]
    exact List.mem_append_left _ (h.inhabited g hg)
  · intro other hother
    rw [hkeys]
    rcases List.mem_append.mp hother with hother | hother
    · exact h.complete other hother
    · rwa [Option.some.inj (List.mem_singleton.mp hother)]
  · rw [hkeys]
    exact h.distinct
  · exact List.pairwise_map.mpr (h.ordered.imp RuleGroup.Before.gain)

theorem add_new {key : String} (hkey : key ∉ gs.groups.map RuleGroup.key) :
    Placed (keys ++ [some key]) (gs.add keys.length (some key)) := by
  have hgroups : (gs.add keys.length (some key)).groups =
      gs.groups ++ [⟨key, [keys.length]⟩] := RuleGroup.place_of_not_mem hkey
  have hfresh : keys.findIdxs (· == some key) = [] := by
    rw [List.findIdxs_eq_nil_iff]
    intro other hother
    rw [beq_eq_false_iff_ne]
    rintro rfl
    exact hkey (h.complete key hother)
  refine ⟨h.add_once key, h.add_unindexed key, ?_, ?_, ?_, ?_, ?_⟩ <;> rw [hgroups]
  · intro g hg
    rcases List.mem_append.mp hg with hg | hg
    · have hne : g.key ≠ key := by
        intro heq
        rw [← heq] at hkey
        exact hkey (List.mem_map_of_mem hg)
      have hmembers := h.members_gain key hg
      rwa [RuleGroup.gain_of_ne hne] at hmembers
    · obtain rfl := List.mem_singleton.mp hg
      rw [findIdxs_append_singleton, hfresh, if_pos rfl, List.nil_append]
  · intro g hg
    rcases List.mem_append.mp hg with hg | hg
    · exact List.mem_append_left _ (h.inhabited g hg)
    · obtain rfl := List.mem_singleton.mp hg
      exact List.mem_append_right _ List.mem_cons_self
  · intro other hother
    rw [List.map_append]
    rcases List.mem_append.mp hother with hother | hother
    · exact List.mem_append_left _ (h.complete other hother)
    · obtain rfl := Option.some.inj (List.mem_singleton.mp hother)
      exact List.mem_append_right _ List.mem_cons_self
  · rw [List.map_append, List.map_singleton]
    apply (List.perm_append_singleton _ _).nodup_iff.mpr
    exact List.nodup_cons.mpr ⟨hkey, h.distinct⟩
  · refine List.pairwise_append.mpr ⟨h.ordered, List.pairwise_singleton _ _, ?_⟩
    intro g hg g' hg'
    obtain rfl := List.mem_singleton.mp hg'
    obtain ⟨i, hi, hlt⟩ := h.exists_head? hg
    exact ⟨i, keys.length, hi, rfl, hlt⟩

theorem add (key : Option String) : Placed (keys ++ [key]) (gs.add keys.length key) := by
  cases key with
  | none => exact h.add_none
  | some key =>
    by_cases hkey : key ∈ gs.groups.map RuleGroup.key
    · exact h.add_old hkey
    · exact h.add_new hkey

theorem addAll (more : List (Option String)) :
    Placed (keys ++ more) (gs.addAll keys.length more) := by
  induction more generalizing keys gs with
  | nil => rwa [List.append_nil]
  | cons key more ih =>
    have hstep := ih (h.add key)
    rwa [List.length_append, List.append_assoc] at hstep

theorem mem_members {g : RuleGroup} (hg : g ∈ gs.groups) {i : Nat} :
    i ∈ g.members ↔ keys[i]? = some (some g.key) := by
  rw [h.members g hg, List.mem_findIdxs_iff_exists_getElem_pos, List.getElem?_eq_some_iff]
  simp only [beq_iff_eq]

/-- Two positions stand in one group just if they have the same key. -/
theorem together_iff {i j : Nat} :
    (∃ g ∈ gs.groups, i ∈ g.members ∧ j ∈ g.members) ↔
      ∃ key, keys[i]? = some (some key) ∧ keys[j]? = some (some key) := by
  constructor
  · rintro ⟨g, hg, hi, hj⟩
    exact ⟨g.key, (h.mem_members hg).mp hi, (h.mem_members hg).mp hj⟩
  · rintro ⟨key, hi, hj⟩
    obtain ⟨g, hg, rfl⟩ := List.mem_map.mp (h.complete key (List.mem_of_getElem? hi))
    exact ⟨g, hg, (h.mem_members hg).mpr hi, (h.mem_members hg).mpr hj⟩

theorem find?_eq (key : String) :
    gs.find? key =
      if keys.findIdxs (· == some key) = [] then none
      else some ⟨key, keys.findIdxs (· == some key)⟩ := by
  cases hfind : gs.find? key with
  | none =>
    rw [if_pos]
    rw [List.findIdxs_eq_nil_iff]
    intro other hother
    rw [beq_eq_false_iff_ne]
    rintro rfl
    obtain ⟨g, hg, hkey⟩ := List.mem_map.mp (h.complete key hother)
    have hne := List.find?_eq_none.mp hfind g hg
    rw [hkey, beq_self_eq_true] at hne
    exact hne rfl
  | some g =>
    have hkey : g.key = key := by simpa using List.find?_some hfind
    have hg : g ∈ gs.groups := List.mem_of_find?_eq_some hfind
    obtain ⟨i, hi, -⟩ := h.exists_head? hg
    have hmembers := h.members g hg
    rw [hkey] at hmembers
    rw [← hmembers, ← hkey, if_neg]
    intro hnil
    rw [hnil] at hi
    cases hi

end Placed

/-- The positions of the column sets with a key, ascending. -/
def positionsOfKey (separator key : String) (sets : List ColumnSet) : List Nat :=
  sets.findIdxs fun columns => columns.groupKey separator == some key

/-- The groups are the partition of the positions of all column sets but the empty ones. -/
structure IsPartition (separator : String) (sets : List ColumnSet) (gs : RuleGroups) : Prop where
  once : (gs.groups.flatMap RuleGroup.members ++ gs.unindexed).Perm (List.range sets.length)
  unindexed : gs.unindexed = sets.findIdxs ColumnSet.isEmpty
  together : ∀ i j a b, sets[i]? = some a → sets[j]? = some b →
    ((∃ g ∈ gs.groups, i ∈ g.members ∧ j ∈ g.members) ↔ a = b ∧ a.isEmpty = false)
  inhabited : ∀ g ∈ gs.groups, g.members ≠ []
  ascending : ∀ g ∈ gs.groups, g.members.Pairwise (· < ·)
  ordered : gs.groups.Pairwise RuleGroup.Before
  distinct : (gs.groups.map RuleGroup.key).Nodup
  keyed : ∀ g ∈ gs.groups, ∀ i ∈ g.members, ∃ columns, sets[i]? = some columns ∧
    columns.groupKey separator = some g.key
  found : ∀ key, gs.find? key =
    if positionsOfKey separator key sets = [] then none
    else some ⟨key, positionsOfKey separator key sets⟩

theorem placed_groupRules (sets : List ColumnSet) (separator : String) :
    Placed (sets.map fun columns => columns.groupKey separator) (groupRules sets separator) :=
  Placed.empty.addAll _

/-- Grouping is the partition of the rules by column set. -/
theorem isPartition_groupRules {separator : String} (hsep : IsSeparator separator.toList)
    (sets : List ColumnSet) : IsPartition separator sets (groupRules sets separator) := by
  have h := placed_groupRules sets separator
  have hpositions (key : Option String) :
      (sets.map fun columns => columns.groupKey separator).findIdxs (· == key) =
        sets.findIdxs fun columns => columns.groupKey separator == key := List.findIdxs_map
  constructor
  · simpa using h.once
  · rw [h.unindexed, hpositions]
    congr 1
    funext columns
    rw [Bool.eq_iff_iff, beq_iff_eq, ColumnSet.groupKey_eq_none]
  · intro i j a b ha hb
    rw [h.together_iff, List.getElem?_map, List.getElem?_map, ha, hb,
      ← ColumnSet.shareKey_iff hsep]
    simp only [Option.map_some, Option.some.injEq]
  · intro g hg hnil
    obtain ⟨i, hi, -⟩ := h.exists_head? hg
    rw [hnil] at hi
    cases hi
  · intro g hg
    rw [h.members g hg]
    exact List.pairwise_findIdxs
  · exact h.ordered
  · exact h.distinct
  · intro g hg i hi
    have hkey := (h.mem_members hg).mp hi
    rw [List.getElem?_map] at hkey
    exact Option.map_eq_some_iff.mp hkey
  · intro key
    rw [h.find?_eq, hpositions]
    rfl

/-- Names that hold the separator, a part of it or quotes. -/
theorem isPartition_groupRules_arrow :
    let sets : List ColumnSet := [.ofList ["b", "a-"], .ofList [], .ofList ["a->b"],
      .ofList ["a-", "b"], .ofList ["\"", ""]]
    IsPartition "->" sets (groupRules sets "->") ∧
      (groupRules sets "->").groups =
        [⟨"a-->b", [0, 3]⟩, ⟨"\"a->b\"", [2]⟩, ⟨"->\"\"\"\"", [4]⟩] :=
  ⟨isPartition_groupRules (by decide) _, by decide +kernel⟩

end ColumnRules
