import ColumnRules.Proofs.Template.Nodes

/-!
# What templates contain

Demands on the subscripts, the objects and the scalars of a template, wherever in it they stand.
A template that is decoded contains what the JSON value supplies, and substitution adds only what
the bound values supply.
-/

set_option autoImplicit false

namespace ColumnRules

namespace Json

mutual

/-- The values inside a JSON value, itself first and the others in order. The names of fields are
no values. -/
def nodes : Json → List Json
  | array items => array items :: itemNodes items
  | object fields => object fields :: fieldNodes fields
  | json => [json]

def itemNodes : List Json → List Json
  | [] => []
  | json :: jsons => json.nodes ++ itemNodes jsons

def fieldNodes : List (String × Json) → List Json
  | [] => []
  | (_, json) :: fields => json.nodes ++ fieldNodes fields

end

theorem itemNodes_eq (items : List Json) : itemNodes items = items.flatMap nodes := by
  induction items with
  | nil => rfl
  | cons json jsons ih => rw [itemNodes, ih, List.flatMap_cons]

theorem fieldNodes_eq (fields : List (String × Json)) :
    fieldNodes fields = fields.flatMap fun f => f.2.nodes := by
  induction fields with
  | nil => rfl
  | cons f fields ih => rw [fieldNodes, ih, List.flatMap_cons]

theorem mem_nodes_self (json : Json) : json ∈ json.nodes := by
  cases json <;> exact List.mem_cons_self

theorem mem_nodes_item {items : List Json} {json node : Json} (hitem : json ∈ items)
    (hnode : node ∈ json.nodes) : node ∈ (array items).nodes := by
  rw [nodes, itemNodes_eq]
  exact List.mem_cons_of_mem _ (List.mem_flatMap.mpr ⟨json, hitem, hnode⟩)

theorem mem_nodes_field {fields : List (String × Json)} {f : String × Json} {node : Json}
    (hf : f ∈ fields) (hnode : node ∈ f.2.nodes) : node ∈ (object fields).nodes := by
  rw [nodes, fieldNodes_eq]
  exact List.mem_cons_of_mem _ (List.mem_flatMap.mpr ⟨f, hf, hnode⟩)

def IsScalar : Json → Prop
  | null | bool _ | int _ | float _ => True
  | _ => False

end Json

namespace Template

/-- What is asked of the nodes of a template: of the base of every subscript, of the field names
of every object and of every scalar. -/
structure Demand where
  base : String → Prop
  names : List String → Prop
  value : Json → Prop

namespace Demand

variable (d : Demand)

def Admits : Template → Prop
  | subscript base _ => d.base base
  | object fields => d.names (fields.map Prod.fst)
  | scalar value => d.value value
  | _ => True

/-- The node that a JSON value becomes is admitted. -/
def Supplied : Json → Prop
  | .array _ | .string _ => True
  | .object fields => d.names (fields.map Prod.fst)
  | value => d.value value

end Demand

def Meets (d : Demand) (t : Template) : Prop := ∀ node ∈ t.nodes, d.Admits node

variable {d : Demand}

theorem meets_subscript {base index : String} : (subscript base index).Meets d ↔ d.base base :=
  List.forall_mem_singleton

theorem meets_text (s : String) : (text s).Meets d := List.forall_mem_singleton.mpr trivial

theorem meets_scalar {value : Json} : (scalar value).Meets d ↔ d.value value :=
  List.forall_mem_singleton

theorem meets_sequence {items : List Template} :
    (sequence items).Meets d ↔ ∀ t ∈ items, t.Meets d := by
  constructor
  · intro h t ht node hnode
    exact h node (mem_nodes_item ht hnode)
  · intro h node hnode
    rw [nodes, itemNodes_eq] at hnode
    rcases List.mem_cons.mp hnode with rfl | hnode
    · trivial
    · obtain ⟨t, ht, hnode⟩ := List.mem_flatMap.mp hnode
      exact h t ht node hnode

theorem meets_object {fields : List (String × Template)} :
    (object fields).Meets d ↔
      d.names (fields.map Prod.fst) ∧ ∀ f ∈ fields, f.2.Meets d := by
  constructor
  · intro h
    refine ⟨h _ (mem_nodes_self _), ?_⟩
    intro f hf node hnode
    exact h node (mem_nodes_field hf hnode)
  · rintro ⟨hnames, h⟩ node hnode
    rw [nodes, fieldNodes_eq] at hnode
    rcases List.mem_cons.mp hnode with rfl | hnode
    · exact hnames
    · obtain ⟨f, hf, hnode⟩ := List.mem_flatMap.mp hnode
      exact h f hf node hnode

theorem ofItems_eq (base : String) (items : List Json) :
    ofItems base items = items.map (ofJson base) := by
  induction items with
  | nil => rfl
  | cons json jsons ih => rw [ofItems, ih, List.map_cons]

theorem ofFields_eq (base : String) (fields : List (String × Json)) :
    ofFields base fields = fields.map fun f => (f.1, ofJson base f.2) := by
  induction fields with
  | nil => rfl
  | cons f fields ih => rw [ofFields, ih, List.map_cons]

theorem meets_ofData {json : Json} (h : ∀ node ∈ json.nodes, d.Supplied node) :
    (ofData json).Meets d := by
  induction json using Json.induction with
  | null | bool | int | float => exact meets_scalar.mpr (h _ (Json.mem_nodes_self _))
  | string s => exact meets_text s
  | array items ih =>
    rw [ofData, ofDataItems_eq, meets_sequence, List.forall_mem_map]
    intro json hitem
    exact ih json hitem fun node hnode => h node (Json.mem_nodes_item hitem hnode)
  | object fields ih =>
    rw [ofData, ofDataFields_eq, meets_object, List.map_map, List.forall_mem_map]
    refine ⟨h _ (Json.mem_nodes_self _), ?_⟩
    intro f hf
    exact ih f hf fun node hnode => h node (Json.mem_nodes_field hf hnode)

/-- A generated condition adds only subscripts of the base that it is decoded for. -/
theorem meets_ofJson {base : String} (hbase : d.base base) {json : Json}
    (h : ∀ node ∈ json.nodes, d.Supplied node) : (ofJson base json).Meets d := by
  induction json using Json.induction with
  | null | bool | int | float => exact meets_scalar.mpr (h _ (Json.mem_nodes_self _))
  | string s => exact meets_text s
  | array items ih =>
    rw [ofJson, ofItems_eq, meets_sequence, List.forall_mem_map]
    intro json hitem
    exact ih json hitem fun node hnode => h node (Json.mem_nodes_item hitem hnode)
  | object fields ih =>
    rw [ofJson]
    split
    · exact meets_subscript.mpr hbase
    · rw [ofFields_eq, meets_object, List.map_map, List.forall_mem_map]
      refine ⟨h _ (Json.mem_nodes_self _), ?_⟩
      intro f hf
      exact ih f hf fun node hnode => h node (Json.mem_nodes_field hf hnode)

theorem Meets.substitute {bindings : Bindings} {t : Template} (h : t.Meets d)
    (hbound : ∀ name value, bindings.get? name = some value →
      ∀ node ∈ value.nodes, d.Supplied node) : (t.substitute bindings).Meets d := by
  induction t using Template.induction with
  | subscript base index =>
    rw [Template.substitute]
    split
    · rename_i value hvalue
      exact meets_ofData (hbound index value hvalue)
    · exact h
  | text s =>
    rw [Template.substitute]
    split
    · rename_i value hvalue
      exact meets_ofData (hbound s value hvalue)
    · exact h
  | scalar value => exact h
  | sequence items ih =>
    have hitems := meets_sequence.mp h
    rw [Template.substitute, substituteItems_eq, meets_sequence, List.forall_mem_map]
    exact fun t ht => ih t ht (hitems t ht)
  | object fields ih =>
    obtain ⟨hnames, hfields⟩ := meets_object.mp h
    rw [Template.substitute, substituteFields_eq, meets_object, List.map_map, List.forall_mem_map]
    exact ⟨hnames, fun f hf => ih f hf (hfields f hf)⟩

end Template

end ColumnRules
