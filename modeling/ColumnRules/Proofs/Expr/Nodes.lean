import ColumnRules.Proofs.Expr.Shape

/-!
# The nodes of expressions

All expressions inside an expression, itself first, and the leaves among them. A change of leaves
changes them in place, and the names of the expression are those of its leaves.
-/

set_option autoImplicit false

namespace ColumnRules.Expr

mutual

/-- The nodes of an expression, itself first and then those of its operands in order. -/
def nodes : Expr → List Expr
  | binary left op right => binary left op right :: (left.nodes ++ right.nodes)
  | logical op operands => logical op operands :: allNodes operands
  | sequence items => sequence items :: allNodes items
  | e => [e]

def allNodes : List Expr → List Expr
  | [] => []
  | e :: es => e.nodes ++ allNodes es

end

theorem mem_allNodes {node : Expr} {es : List Expr} :
    node ∈ allNodes es ↔ ∃ e ∈ es, node ∈ e.nodes := by
  induction es with
  | nil => simp [allNodes]
  | cons e es ih => simp [allNodes, ih]

/-- The nodes without operands, from left to right. -/
def leaves (e : Expr) : List Expr := e.nodes.filter isLeaf

theorem mem_leaves {leaf e : Expr} : leaf ∈ e.leaves ↔ leaf ∈ e.nodes ∧ leaf.isLeaf = true :=
  List.mem_filter

theorem leaves_of_isLeaf {e : Expr} (h : e.isLeaf = true) : e.leaves = [e] := by
  cases e with
  | literal | var | subscript => rfl
  | binary | logical | sequence => cases h

theorem leaves_binary (left right : Expr) (op : BinaryOp) :
    (binary left op right).leaves = left.leaves ++ right.leaves := by
  rw [leaves, nodes, List.filter_cons_of_neg Bool.false_ne_true, List.filter_append]
  rfl

theorem filter_allNodes (es : List Expr) : (allNodes es).filter isLeaf = es.flatMap leaves := by
  induction es with
  | nil => rfl
  | cons e es ih =>
    rw [allNodes, List.filter_append, ih, List.flatMap_cons]
    rfl

theorem leaves_logical (op : LogicalOp) (operands : List Expr) :
    (logical op operands).leaves = operands.flatMap leaves := by
  rw [leaves, nodes, List.filter_cons_of_neg Bool.false_ne_true, filter_allNodes]

theorem leaves_sequence (items : List Expr) :
    (sequence items).leaves = items.flatMap leaves := by
  rw [leaves, nodes, List.filter_cons_of_neg Bool.false_ne_true, filter_allNodes]

theorem Meets.leaf {d : Demand} {e : Expr} (h : e.Meets d) {leaf : Expr} (hleaf : leaf ∈ e.leaves) :
    d.leaf leaf := by
  induction e using Expr.induction with
  | literal | var | subscript =>
    obtain rfl := List.mem_singleton.mp hleaf
    exact h
  | binary left op right ihl ihr =>
    rw [leaves_binary] at hleaf
    rcases List.mem_append.mp hleaf with hleaf | hleaf
    · exact ihl h.1 hleaf
    · exact ihr h.2 hleaf
  | logical op operands ih =>
    rw [leaves_logical] at hleaf
    obtain ⟨e, he, hleaf⟩ := List.mem_flatMap.mp hleaf
    exact ih e he (allMeet_iff.mp h.2 e he) hleaf
  | sequence items ih =>
    rw [leaves_sequence] at hleaf
    obtain ⟨e, he, hleaf⟩ := List.mem_flatMap.mp hleaf
    exact ih e he (allMeet_iff.mp h.2 e he) hleaf

theorem Meets.and_leaves {d : Demand} {e : Expr} (h : e.Meets d) {P : Expr → Prop}
    (hP : ∀ leaf ∈ e.leaves, P leaf) :
    e.Meets ⟨fun leaf => d.leaf leaf ∧ P leaf, d.operands, d.items⟩ := by
  induction e using Expr.induction with
  | literal | var | subscript => exact ⟨h, hP _ List.mem_cons_self⟩
  | binary left op right ihl ihr =>
    rw [leaves_binary, List.forall_mem_append] at hP
    exact ⟨ihl h.1 hP.1, ihr h.2 hP.2⟩
  | logical op operands ih =>
    rw [leaves_logical, List.forall_mem_flatMap] at hP
    exact ⟨h.1, allMeet_iff.mpr fun e he => ih e he (allMeet_iff.mp h.2 e he) (hP e he)⟩
  | sequence items ih =>
    rw [leaves_sequence, List.forall_mem_flatMap] at hP
    exact ⟨h.1, allMeet_iff.mpr fun e he => ih e he (allMeet_iff.mp h.2 e he) (hP e he)⟩

theorem leaves_mapLeaves {f : Expr → Expr} (hf : KeepsLeaves f) (e : Expr) :
    (e.mapLeaves f).leaves = e.leaves.map f := by
  induction e using Expr.induction with
  | literal | var | subscript =>
    exact leaves_of_isLeaf (hf _ rfl)
  | binary left op right ihl ihr =>
    rw [mapLeaves, leaves_binary, leaves_binary, ihl, ihr, List.map_append]
  | logical op operands ih =>
    rw [mapLeaves, leaves_logical, leaves_logical, mapAllLeaves_eq, List.flatMap_map,
      List.map_flatMap]
    exact List.flatMap_congr ih
  | sequence items ih =>
    rw [mapLeaves, leaves_sequence, leaves_sequence, mapAllLeaves_eq, List.flatMap_map,
      List.map_flatMap]
    exact List.flatMap_congr ih

theorem varList_eq (e : Expr) : e.varList = e.leaves.flatMap varList := by
  induction e using Expr.induction with
  | literal | var | subscript => rw [leaves_of_isLeaf rfl, List.flatMap_singleton]
  | binary left op right ihl ihr => rw [varList, leaves_binary, List.flatMap_append, ihl, ihr]
  | logical op operands ih =>
    rw [varList, varLists_eq, leaves_logical, List.flatMap_assoc]
    exact List.flatMap_congr ih
  | sequence items ih =>
    rw [varList, varLists_eq, leaves_sequence, List.flatMap_assoc]
    exact List.flatMap_congr ih

/-- The names of an expression are those of its leaves. -/
theorem mem_varList {name : String} {e : Expr} : name ∈ e.varList ↔ var name ∈ e.leaves := by
  rw [varList_eq, List.mem_flatMap]
  constructor
  · rintro ⟨leaf, hleaf, hname⟩
    cases leaf with
    | var other =>
      obtain rfl := List.mem_singleton.mp hname
      exact hleaf
    | literal | subscript => cases hname
    | binary | logical | sequence => cases (mem_leaves.mp hleaf).2
  · exact fun h => ⟨_, h, List.mem_cons_self⟩

end ColumnRules.Expr
