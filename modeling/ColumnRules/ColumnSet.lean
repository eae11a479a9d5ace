/-!
# Column sets

A set of column names is the strictly ascending list of its members, so two sets with the same
members are the same set. Names are ordered by code point.
-/

set_option autoImplicit false

namespace ColumnRules

structure ColumnSet where
  names : List String
  ascending : names.Pairwise (· < ·)
  deriving DecidableEq

namespace ColumnSet

/-- Puts a name into its place in an ascending list, unless it is there. -/
def insertName (name : String) : List String → List String
  | [] => [name]
  | other :: names =>
    if name < other then name :: other :: names
    else if name = other then other :: names
    else other :: insertName name names

theorem mem_insertName {name x : String} {names : List String} :
    x ∈ insertName name names ↔ x = name ∨ x ∈ names := by
  induction names with
  | nil => simp [insertName]
  | cons other names ih =>
    unfold insertName
    split
    · simp
    split
    · rename_i h
      subst h
      simp
    · simp only [List.mem_cons, ih]
      exact or_left_comm

theorem pairwise_insertName {name : String} {names : List String}
    (h : names.Pairwise (· < ·)) : (insertName name names).Pairwise (· < ·) := by
  induction names with
  | nil => simp [insertName]
  | cons other names ih =>
    obtain ⟨hall, htail⟩ := List.pairwise_cons.mp h
    unfold insertName
    split
    · rename_i hlt
      refine List.pairwise_cons.mpr ⟨fun x hx => ?_, h⟩
      rcases List.mem_cons.mp hx with rfl | hx
      · exact hlt
      · exact String.lt_trans hlt (hall x hx)
    split
    · exact h
    · rename_i hnlt hne
      refine List.pairwise_cons.mpr ⟨fun x hx => ?_, ih htail⟩
      rcases mem_insertName.mp hx with rfl | hx
      · exact Std.lt_of_le_of_ne (String.not_lt.mp hnlt) (Ne.symm hne)
      · exact hall x hx

def empty : ColumnSet := ⟨[], .nil⟩

def insert (columns : ColumnSet) (name : String) : ColumnSet :=
  ⟨insertName name columns.names, pairwise_insertName columns.ascending⟩

def insertAll (columns : ColumnSet) (names : List String) : ColumnSet :=
  names.foldl insert columns

def ofList (names : List String) : ColumnSet := empty.insertAll names

def contains (columns : ColumnSet) (name : String) : Bool := columns.names.contains name

def size (columns : ColumnSet) : Nat := columns.names.length

def isEmpty (columns : ColumnSet) : Bool := columns.names.isEmpty

end ColumnSet

end ColumnRules
