import ColumnRules.Json.Basic

/-!
# Dictionaries sorted by name

A dictionary is the list of its entries in strictly ascending order of their names. Bindings are
the dictionary that gives placeholders their values.
-/

set_option autoImplicit false

namespace ColumnRules

structure Dictionary (α : Type) where
  entries : List (String × α)
  ascending : entries.Pairwise (·.1 < ·.1)

namespace Dictionary

variable {α : Type}

/-- The value of the first entry of that name. -/
def lookup (name : String) : List (String × α) → Option α
  | [] => none
  | e :: entries => if e.1 = name then some e.2 else lookup name entries

/-- Puts an entry into its place, replacing the one of the same name. -/
def insertEntry (name : String) (value : α) : List (String × α) → List (String × α)
  | [] => [(name, value)]
  | e :: entries =>
    if name < e.1 then (name, value) :: e :: entries
    else if name = e.1 then (name, value) :: entries
    else e :: insertEntry name value entries

theorem fst_of_mem_insertEntry {name : String} {value : α} {entries : List (String × α)}
    {e : String × α} (h : e ∈ insertEntry name value entries) : e.1 = name ∨ e ∈ entries := by
  induction entries with
  | nil =>
    rw [insertEntry, List.mem_singleton] at h
    exact .inl (congrArg Prod.fst h)
  | cons d entries ih =>
    unfold insertEntry at h
    split at h
    · rcases List.mem_cons.mp h with rfl | h
      · exact .inl rfl
      · exact .inr h
    split at h
    · rcases List.mem_cons.mp h with rfl | h
      · exact .inl rfl
      · exact .inr (List.mem_cons_of_mem d h)
    · rcases List.mem_cons.mp h with rfl | h
      · exact .inr List.mem_cons_self
      · exact (ih h).imp id (List.mem_cons_of_mem d)

theorem pairwise_insertEntry {name : String} {value : α} {entries : List (String × α)}
    (h : entries.Pairwise (·.1 < ·.1)) :
    (insertEntry name value entries).Pairwise (·.1 < ·.1) := by
  induction entries with
  | nil => simp [insertEntry]
  | cons d entries ih =>
    obtain ⟨hall, htail⟩ := List.pairwise_cons.mp h
    unfold insertEntry
    split
    · rename_i hlt
      refine List.pairwise_cons.mpr ⟨fun e he => ?_, h⟩
      rcases List.mem_cons.mp he with rfl | he
      · exact hlt
      · exact String.lt_trans hlt (hall e he)
    split
    · rename_i heq
      exact List.pairwise_cons.mpr ⟨fun e he => heq ▸ hall e he, htail⟩
    · rename_i hnlt hne
      refine List.pairwise_cons.mpr ⟨fun e he => ?_, ih htail⟩
      rcases fst_of_mem_insertEntry he with heq | he
      · exact heq ▸ Std.lt_of_le_of_ne (String.not_lt.mp hnlt) (Ne.symm hne)
      · exact hall e he

theorem lookup_insertEntry (name other : String) (value : α) (entries : List (String × α)) :
    lookup other (insertEntry name value entries) =
      if name = other then some value else lookup other entries := by
  induction entries with
  | nil => rfl
  | cons d entries ih =>
    unfold insertEntry
    split
    · rfl
    split
    · rename_i heq
      simp only [lookup, ← heq]
      split <;> rfl
    · rename_i hne
      simp only [lookup, ih]
      split
      · rename_i h
        rw [if_neg (fun h' => hne (h'.trans h.symm))]
      · rfl

theorem lookup_of_not_mem {name : String} {entries : List (String × α)}
    (h : ∀ e ∈ entries, e.1 ≠ name) : lookup name entries = none := by
  induction entries with
  | nil => rfl
  | cons d entries ih =>
    rw [lookup, if_neg (h d List.mem_cons_self), ih fun e he => h e (List.mem_cons_of_mem d he)]

theorem lookup_filter (name other : String) (entries : List (String × α)) :
    lookup other (entries.filter fun e => e.1 != name) =
      if name = other then none else lookup other entries := by
  induction entries with
  | nil => exact (ite_self none).symm
  | cons d entries ih =>
    by_cases hd : d.1 = name
    · rw [List.filter_cons_of_neg (by simpa using hd), ih, lookup, hd]
      split <;> rfl
    · rw [List.filter_cons_of_pos (by simpa using hd), lookup, lookup, ih]
      split
      · rename_i heq
        rw [if_neg (fun h => hd (heq.trans h.symm))]
      · rfl

def empty : Dictionary α := ⟨[], .nil⟩

def get? (d : Dictionary α) (name : String) : Option α := lookup name d.entries

def insert (d : Dictionary α) (name : String) (value : α) : Dictionary α :=
  ⟨insertEntry name value d.entries, pairwise_insertEntry d.ascending⟩

/-- Inserts all entries of a list in turn: of a repeated name the last value stays. -/
def insertAll (d : Dictionary α) (entries : List (String × α)) : Dictionary α :=
  entries.foldl (fun d e => d.insert e.1 e.2) d

def ofList (entries : List (String × α)) : Dictionary α := empty.insertAll entries

def merge (d other : Dictionary α) : Dictionary α := d.insertAll other.entries

def erase (d : Dictionary α) (name : String) : Dictionary α :=
  ⟨d.entries.filter fun e => e.1 != name, d.ascending.filter _⟩

@[simp] theorem get?_empty (name : String) : (empty : Dictionary α).get? name = none := rfl

@[simp] theorem get?_insert (d : Dictionary α) (name other : String) (value : α) :
    (d.insert name value).get? other = if name = other then some value else d.get? other :=
  lookup_insertEntry name other value d.entries

@[simp] theorem get?_erase (d : Dictionary α) (name other : String) :
    (d.erase name).get? other = if name = other then none else d.get? other :=
  lookup_filter name other d.entries

theorem mem_of_get?_insertAll {d : Dictionary α} {entries : List (String × α)} {name : String}
    {value : α} (h : (d.insertAll entries).get? name = some value) :
    (name, value) ∈ entries ∨ d.get? name = some value := by
  induction entries generalizing d with
  | nil => exact .inr h
  | cons e entries ih =>
    have hfirst : (name, value) ∈ entries ∨ (d.insert e.1 e.2).get? name = some value := ih h
    rcases hfirst with hmem | hfirst
    · exact .inl (List.mem_cons_of_mem e hmem)
    rw [get?_insert] at hfirst
    split at hfirst
    · rename_i hname
      cases hfirst
      subst hname
      exact .inl List.mem_cons_self
    · exact .inr hfirst

theorem mem_of_get?_ofList {entries : List (String × α)} {name : String} {value : α}
    (h : (ofList entries).get? name = some value) : (name, value) ∈ entries :=
  (mem_of_get?_insertAll h).resolve_right nofun

end Dictionary

/-- The values bound to placeholder names. -/
abbrev Bindings : Type := Dictionary Json

/-- Binds every name to itself. -/
def Bindings.identity (names : List String) : Bindings :=
  Dictionary.ofList (names.map fun name => (name, Json.string name))

end ColumnRules
