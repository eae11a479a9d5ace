import ColumnRules.Expr.Codec
import ColumnRules.Proofs.Expr.Chain
import ColumnRules.Proofs.Template.Contents

/-!
# Expressions decoded from their tagged form

The tagged form of an expression is decoded as the expression, by one equation for every
constructor. JSON has no number for some literals. Such a literal becomes null, nothing else does,
and an expression with a null in its tagged form is not decoded at all.
-/

set_option autoImplicit false

namespace ColumnRules.Expr

theorem toJsons_eq (es : List Expr) : toJsons es = es.map toJson := by
  induction es with
  | nil => rfl
  | cons e es ih => rw [toJsons, ih, List.map_cons]

section Fields

variable (inner : Bool)

theorem ofJsonAt?_literalFields (value : Json) :
    ofJsonAt? inner (.object [("kind", .string "literal"), ("value", value)]) =
      value.toBinary64?.map literal := by
  rw [ofJsonAt?]
  rfl

theorem ofJsonAt?_varFields (name : String) :
    ofJsonAt? inner (.object [("kind", .string "var_ref"), ("name", .string name)]) =
      some (var name) := by
  rw [ofJsonAt?]
  rfl

theorem ofJsonAt?_subscriptFields (base index : String) :
    ofJsonAt? inner (.object [("kind", .string "subscript"), ("base", .string base),
        ("index", .string index)]) = some (subscript base index) := by
  rw [ofJsonAt?]
  rfl

theorem ofJsonAt?_binaryFields (op : BinaryOp) (left right : Json) :
    ofJsonAt? inner (.object [("kind", .string "binary"), ("left", left),
        ("op", .string op.symbol), ("right", right)]) =
      (ofJsonAt? true left).bind fun l =>
        (ofJsonAt? true right).bind fun r => some (binary l op r) := by
  have hop : binaryOpOfJson? (.string op.symbol) = some op := BinaryOp.ofSymbol?_symbol op
  rw [ofJsonAt?]
  change ((ofJsonAt? true left).bind fun l => (binaryOpOfJson? (.string op.symbol)).bind fun op =>
    (ofJsonAt? true right).bind fun r => some (binary l op r)) = _
  rw [hop]
  rfl

theorem ofJsonAt?_logicalFields (op : LogicalOp) (operands : Json) :
    ofJsonAt? inner (.object [("kind", .string "logical"), ("op", .string op.name),
        ("operands", operands)]) = (listOfJson? operands).map (logical op) := by
  have hop : logicalOpOfJson? (.string op.name) = some op := by cases op <;> rfl
  rw [ofJsonAt?]
  change ((logicalOpOfJson? (.string op.name)).bind fun op =>
    (listOfJson? operands).bind fun es => some (logical op es)) = _
  rw [hop, Option.map_eq_bind]
  rfl

theorem ofJsonAt?_sequenceFields (items : Json) :
    ofJsonAt? inner (.object [("kind", .string "sequence"), ("items", items)]) =
      (listOfJson? items).map sequence := by
  rw [ofJsonAt?]
  rfl

end Fields

/-- Alone or inside another expression, the tagged form is decoded as the expression, as long as
all literals are finite, and as nothing else. -/
def IsDecoded (e : Expr) : Prop :=
  ∀ inner f, ofJsonAt? inner e.toJson = some f ↔ f = e ∧ e.Meets finiteLiterals

theorem ofJsons?_toJsons_eq_some {es fs : List Expr} (h : ∀ e ∈ es, e.IsDecoded) :
    ofJsons? (toJsons es) = some fs ↔ fs = es ∧ AllMeet finiteLiterals es := by
  induction es generalizing fs with
  | nil => simp [toJsons, ofJsons?, AllMeet, eq_comm]
  | cons e es ih =>
    have hfirst := h e List.mem_cons_self true
    have hrest := fun gs => @ih gs fun x hx => h x (List.mem_cons_of_mem _ hx)
    rw [toJsons, ofJsons?]
    constructor
    · intro hread
      split at hread
      · rename_i f gs hf hgs
        cases hread
        obtain ⟨rfl, hmeets⟩ := (hfirst f).mp hf
        obtain ⟨rfl, hall⟩ := (hrest gs).mp hgs
        exact ⟨rfl, hmeets, hall⟩
      · cases hread
    · rintro ⟨rfl, hmeets, hall⟩
      rw [(hfirst e).mpr ⟨rfl, hmeets⟩, (hrest es).mpr ⟨rfl, hall⟩]

/-- A list of operands is the last field of the node that `build` makes of it. -/
theorem map_listOfJson?_eq_some {es : List Expr} (h : ∀ e ∈ es, e.IsDecoded)
    (build : List Expr → Expr) (f : Expr) :
    (listOfJson? (.array (toJsons es))).map build = some f ↔
      f = build es ∧ AllMeet finiteLiterals es := by
  simp only [listOfJson?, Option.map_eq_some_iff, ofJsons?_toJsons_eq_some h]
  constructor
  · rintro ⟨fs, ⟨rfl, hall⟩, rfl⟩
    exact ⟨rfl, hall⟩
  · rintro ⟨rfl, hall⟩
    exact ⟨es, ⟨rfl, hall⟩, rfl⟩

theorem isDecoded (e : Expr) : e.IsDecoded := by
  intro inner f
  induction e using Expr.induction generalizing inner f with
  | literal x =>
    rw [toJson, ofJsonAt?_literalFields]
    by_cases hx : x.isFinite = true
    · simp [hx, Json.toBinary64?, Meets, finiteLiterals, eq_comm (b := f)]
    · simp [hx, Json.toBinary64?, Meets, finiteLiterals]
  | var name =>
    rw [toJson, ofJsonAt?_varFields]
    simp [Meets, finiteLiterals, eq_comm (b := f)]
  | subscript base index =>
    rw [toJson, ofJsonAt?_subscriptFields]
    simp [Meets, finiteLiterals, eq_comm (b := f)]
  | binary left op right ihl ihr =>
    rw [toJson, ofJsonAt?_binaryFields]
    simp only [Option.bind_eq_some_iff, ihl, ihr, Option.some.injEq]
    constructor
    · rintro ⟨l, ⟨rfl, hleft⟩, r, ⟨rfl, hright⟩, rfl⟩
      exact ⟨rfl, hleft, hright⟩
    · rintro ⟨rfl, hleft, hright⟩
      exact ⟨left, ⟨rfl, hleft⟩, right, ⟨rfl, hright⟩, rfl⟩
  | logical op operands ih =>
    rw [toJson, ofJsonAt?_logicalFields, map_listOfJson?_eq_some ih, Meets]
    exact and_congr_right fun _ => (true_and _).symm.to_iff
  | sequence items ih =>
    rw [toJson, ofJsonAt?_sequenceFields, map_listOfJson?_eq_some ih, Meets]
    exact and_congr_right fun _ => (true_and _).symm.to_iff

theorem null_mem_nodes_array {es : List Expr}
    (h : ∀ e ∈ es, Json.null ∈ e.toJson.nodes ↔ ¬ e.Meets finiteLiterals) :
    Json.null ∈ (Json.array (toJsons es)).nodes ↔ ¬ AllMeet finiteLiterals es := by
  rw [Json.nodes, Json.itemNodes_eq, toJsons_eq, List.flatMap_map, allMeet_iff]
  simp only [List.mem_cons, reduceCtorEq, false_or, List.mem_flatMap, not_forall, exists_prop]
  exact exists_congr fun e => and_congr_right (h e)

/-- A literal that is not finite is written as null, and nothing else is. -/
theorem null_mem_nodes_toJson (e : Expr) :
    Json.null ∈ e.toJson.nodes ↔ ¬ e.Meets finiteLiterals := by
  induction e using Expr.induction with
  | literal x =>
    by_cases hx : x.isFinite = true <;>
      simp [toJson, hx, Json.nodes, Json.fieldNodes, Meets, finiteLiterals]
  | var | subscript => simp [toJson, Json.nodes, Json.fieldNodes, Meets, finiteLiterals]
  | binary left op right ihl ihr =>
    simp [toJson, Json.nodes, Json.fieldNodes, Meets, ihl, ihr, imp_iff_not_or]
  | logical op operands ih =>
    simpa [toJson, Json.nodes, Json.fieldNodes, Meets, finiteLiterals] using
      null_mem_nodes_array ih
  | sequence items ih =>
    simpa [toJson, Json.nodes, Json.fieldNodes, Meets, finiteLiterals] using
      null_mem_nodes_array ih

/-- The tagged form of an expression is decoded as the expression if all its literals are finite.
Otherwise it has a null in it, and it is not decoded. -/
theorem decoded_toJson (e : Expr) :
    (ofJson? e.toJson = some e ↔ e.Meets finiteLiterals) ∧
      (ofJson? e.toJson = none ↔ ¬ e.Meets finiteLiterals) ∧
      (Json.null ∈ e.toJson.nodes ↔ ¬ e.Meets finiteLiterals) := by
  have hdecoded : ∀ f, ofJson? e.toJson = some f ↔ f = e ∧ e.Meets finiteLiterals :=
    isDecoded e false
  refine ⟨?_, ?_, null_mem_nodes_toJson e⟩
  · rw [hdecoded, eq_self, true_and]
  · rw [Option.eq_none_iff_forall_ne_some]
    simp only [ne_eq, hdecoded, not_and, forall_eq]

end ColumnRules.Expr
