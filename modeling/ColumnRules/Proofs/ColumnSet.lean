import ColumnRules.ColumnSet
import Mathlib.Data.List.Sort

/-!
# Members of column sets

A column set is known by its members: the names that went into it are in it, in whatever order and
however often they came, and no other set has the same members.
-/

set_option autoImplicit false

namespace ColumnRules.ColumnSet

@[simp] theorem mem_insert {columns : ColumnSet} {name x : String} :
    x ∈ (columns.insert name).names ↔ x = name ∨ x ∈ columns.names := mem_insertName

@[simp] theorem mem_insertAll {columns : ColumnSet} {names : List String} {x : String} :
    x ∈ (columns.insertAll names).names ↔ x ∈ names ∨ x ∈ columns.names := by
  unfold insertAll
  induction names generalizing columns with
  | nil => simp
  | cons name names ih =>
    simp only [List.foldl_cons, ih, mem_insert, List.mem_cons, or_assoc]
    exact or_left_comm

@[simp] theorem mem_ofList {names : List String} {x : String} :
    x ∈ (ofList names).names ↔ x ∈ names := by simp [ofList, empty]

/-- Sets with the same members are the same set. -/
theorem ext_mem {a b : ColumnSet} (h : ∀ x, x ∈ a.names ↔ x ∈ b.names) : a = b := by
  obtain ⟨as, ha⟩ := a
  obtain ⟨bs, hb⟩ := b
  obtain rfl : as = bs := ha.eq_of_mem_iff hb h
  rfl

end ColumnRules.ColumnSet
