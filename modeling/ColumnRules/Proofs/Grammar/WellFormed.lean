import ColumnRules.Proofs.Expr.Nodes
import ColumnRules.Proofs.Grammar.Parse
import ColumnRules.Proofs.Token.Declared

/-!
# Accepted expressions are well formed

The tokens declare the leaves, the grammar joins two operands at a time, conditions are not
compared and no expression is higher than allowed. What is known of an expression as a whole is
known of each of its nodes.
-/

set_option autoImplicit false

namespace ColumnRules

namespace Expr

/-- A node of an accepted expression: its leaves are declared, it joins two operands, and it
compares no condition. -/
def IsWellFormed (columns : List String) : Expr → Prop
  | literal x => x.isFinite = true
  | var name => name ∈ columns ∧ name ≠ ""
  | subscript _ _ => False
  | binary left op right =>
    op.isComparison = true → left.isCondition = false ∧ right.isCondition = false
  | logical _ operands => operands.length = 2
  | sequence _ => True

theorem comparesValues_binary {left right : Expr} {op : BinaryOp}
    (h : (binary left op right).comparesValues = true) :
    (op.isComparison = true → left.isCondition = false ∧ right.isCondition = false) ∧
      left.comparesValues = true ∧ right.comparesValues = true := by
  rw [comparesValues, Bool.and_eq_true, Bool.and_eq_true] at h
  obtain ⟨hhere, hbelow⟩ := h
  refine ⟨?_, hbelow⟩
  intro hop
  rw [hop, Bool.true_and, Bool.not_eq_true', Bool.or_eq_false_iff] at hhere
  exact hhere

theorem isWellFormed_of_mem_nodes {columns : List String} {e : Expr}
    (hleaves : e.Meets ⟨IsDeclared columns, fun n => n = 2, fun _ => True⟩)
    (hvalues : e.comparesValues = true) {node : Expr} (hnode : node ∈ e.nodes) :
    node.IsWellFormed columns := by
  induction e using Expr.induction with
  | literal | var =>
    obtain rfl := List.mem_singleton.mp hnode
    exact hleaves
  | subscript => exact hleaves.elim
  | binary left op right ihl ihr =>
    obtain ⟨hhere, hleft, hright⟩ := comparesValues_binary hvalues
    rcases List.mem_cons.mp hnode with rfl | hnode
    · exact hhere
    rcases List.mem_append.mp hnode with hnode | hnode
    · exact ihl hleaves.1 hleft hnode
    · exact ihr hleaves.2 hright hnode
  | logical op operands ih =>
    rcases List.mem_cons.mp hnode with rfl | hnode
    · exact hleaves.1
    obtain ⟨e, he, hnode⟩ := mem_allNodes.mp hnode
    exact ih e he (allMeet_iff.mp hleaves.2 e he) (allCompareValues_iff.mp hvalues e he) hnode
  | sequence items ih =>
    rcases List.mem_cons.mp hnode with rfl | hnode
    · trivial
    obtain ⟨e, he, hnode⟩ := mem_allNodes.mp hnode
    exact ih e he (allMeet_iff.mp hleaves.2 e he) (allCompareValues_iff.mp hvalues e he) hnode

end Expr

/-- Every node of an accepted expression is well formed, and the expression is at most 128 high. -/
theorem isWellFormed_of_parse {source : String} {columns : List String} {e : Expr}
    (h : parse source columns = .ok e) :
    (∀ node ∈ e.nodes, node.IsWellFormed columns) ∧ e.height ≤ 128 := by
  obtain ⟨lexemes, htokenize⟩ := tokenize_of_parse h
  obtain ⟨hderives, hheight, hvalues⟩ := derives_of_parse htokenize h
  have hleaves := hderives.meets (declared_of_tokenize htokenize)
  exact ⟨fun node hnode => Expr.isWellFormed_of_mem_nodes hleaves hvalues hnode, hheight⟩

theorem isWellFormed_of_parse_nested :
    ∃ e, parse "a + 1 < b c || [(a), [-2]]" ["a", "b c"] = .ok e ∧
      (∀ node ∈ e.nodes, node.IsWellFormed ["a", "b c"]) ∧ e.height ≤ 128 := by
  have htokenize : tokenize "a + 1 < b c || [(a), [-2]]" ["a", "b c"] =
      .ok [⟨.column "a", 0⟩, ⟨.symbol .add, 2⟩, ⟨.number (.ofInt 1), 4⟩, ⟨.symbol .lt, 6⟩,
        ⟨.column "b c", 8⟩, ⟨.symbol .or, 12⟩, ⟨.leftBracket, 15⟩, ⟨.leftParen, 16⟩,
        ⟨.column "a", 17⟩, ⟨.rightParen, 18⟩, ⟨.comma, 19⟩, ⟨.leftBracket, 21⟩,
        ⟨.number (.ofInt (-2)), 22⟩, ⟨.rightBracket, 24⟩, ⟨.rightBracket, 25⟩] := by
    decide +kernel
  have hparse : parse "a + 1 < b c || [(a), [-2]]" ["a", "b c"] =
      .ok (.logical .or [.binary (.binary (.var "a") (.arith .add) (.literal (.ofInt 1)))
        (.compare .lt) (.var "b c"),
        .sequence [.var "a", .sequence [.literal (.ofInt (-2))]]]) := by
    rw [parse, htokenize]
    rfl
  exact ⟨_, hparse, isWellFormed_of_parse hparse⟩

end ColumnRules
