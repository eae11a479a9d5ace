import ColumnRules.Template.Basic
import Mathlib.Data.List.Basic

/-!
# The nodes of templates

All templates inside a template, itself first, and the subscripts among them from left to right.
What bound data becomes has no subscripts, so substitution only takes subscripts away.
-/

set_option autoImplicit false

namespace ColumnRules

/-- Induction on a JSON value, with the statement at hand for all items and all fields. -/
@[elab_as_elim]
theorem Json.induction {motive : Json → Prop} (null : motive .null)
    (bool : ∀ b, motive (.bool b)) (int : ∀ n, motive (.int n)) (float : ∀ x, motive (.float x))
    (string : ∀ s, motive (.string s))
    (array : ∀ items, (∀ json ∈ items, motive json) → motive (.array items))
    (object : ∀ fields, (∀ f ∈ fields, motive f.2) → motive (.object fields)) (json : Json) :
    motive json :=
  @Json.rec motive (fun items => ∀ json ∈ items, motive json) (fun fs => ∀ f ∈ fs, motive f.2)
    (fun f => motive f.2) null bool int float string array object
    (fun _ h => absurd h List.not_mem_nil) (fun _ _ h hs => List.forall_mem_cons.mpr ⟨h, hs⟩)
    (fun _ h => absurd h List.not_mem_nil) (fun _ _ h hs => List.forall_mem_cons.mpr ⟨h, hs⟩)
    (fun _ _ h => h) json

namespace Template

/-- Induction on a template, with the statement at hand for all items and all fields. -/
@[elab_as_elim]
theorem induction {motive : Template → Prop}
    (subscript : ∀ base index, motive (.subscript base index))
    (sequence : ∀ items, (∀ t ∈ items, motive t) → motive (.sequence items))
    (object : ∀ fields, (∀ f ∈ fields, motive f.2) → motive (.object fields))
    (text : ∀ s, motive (.text s)) (scalar : ∀ value, motive (.scalar value)) (t : Template) :
    motive t :=
  @Template.rec motive (fun ts => ∀ t ∈ ts, motive t) (fun fs => ∀ f ∈ fs, motive f.2)
    (fun f => motive f.2) subscript sequence object text scalar
    (fun _ h => absurd h List.not_mem_nil) (fun _ _ h hs => List.forall_mem_cons.mpr ⟨h, hs⟩)
    (fun _ h => absurd h List.not_mem_nil) (fun _ _ h hs => List.forall_mem_cons.mpr ⟨h, hs⟩)
    (fun _ _ h => h) t

mutual

/-- The templates inside a template, itself first and the others in order. -/
def nodes : Template → List Template
  | sequence items => sequence items :: itemNodes items
  | object fields => object fields :: fieldNodes fields
  | t => [t]

def itemNodes : List Template → List Template
  | [] => []
  | t :: ts => t.nodes ++ itemNodes ts

def fieldNodes : List (String × Template) → List Template
  | [] => []
  | (_, t) :: fields => t.nodes ++ fieldNodes fields

end

def subscript? : Template → Option (String × String)
  | subscript base index => some (base, index)
  | _ => none

/-- The subscripts of a template in order, each as its base and its index. -/
def subscripts (t : Template) : List (String × String) := t.nodes.filterMap subscript?

theorem itemNodes_eq (items : List Template) : itemNodes items = items.flatMap nodes := by
  induction items with
  | nil => rfl
  | cons t ts ih => rw [itemNodes, ih, List.flatMap_cons]

theorem fieldNodes_eq (fields : List (String × Template)) :
    fieldNodes fields = fields.flatMap fun f => f.2.nodes := by
  induction fields with
  | nil => rfl
  | cons f fields ih => rw [fieldNodes, ih, List.flatMap_cons]

theorem mem_nodes_self (t : Template) : t ∈ t.nodes := by
  cases t <;> exact List.mem_cons_self

theorem mem_nodes_item {items : List Template} {t node : Template} (ht : t ∈ items)
    (hnode : node ∈ t.nodes) : node ∈ (sequence items).nodes := by
  rw [nodes, itemNodes_eq]
  exact List.mem_cons_of_mem _ (List.mem_flatMap.mpr ⟨t, ht, hnode⟩)

theorem mem_nodes_field {fields : List (String × Template)} {f : String × Template}
    {node : Template} (hf : f ∈ fields) (hnode : node ∈ f.2.nodes) :
    node ∈ (object fields).nodes := by
  rw [nodes, fieldNodes_eq]
  exact List.mem_cons_of_mem _ (List.mem_flatMap.mpr ⟨f, hf, hnode⟩)

theorem subscripts_subscript (base index : String) :
    (subscript base index).subscripts = [(base, index)] := rfl

theorem subscripts_sequence (items : List Template) :
    (sequence items).subscripts = items.flatMap subscripts := by
  rw [subscripts, nodes, itemNodes_eq, List.filterMap_cons_none rfl, List.filterMap_flatMap]
  rfl

theorem subscripts_object (fields : List (String × Template)) :
    (object fields).subscripts = fields.flatMap fun f => f.2.subscripts := by
  rw [subscripts, nodes, fieldNodes_eq, List.filterMap_cons_none rfl, List.filterMap_flatMap]
  rfl

theorem ofJson_toJson_subscript (base index : String) :
    ofJson base (subscript base index).toJson = subscript base index := by
  simp [toJson, ofJson, subscriptIndex?, Json.field?]

theorem ofDataItems_eq (items : List Json) : ofDataItems items = items.map ofData := by
  induction items with
  | nil => rfl
  | cons json jsons ih => rw [ofDataItems, ih, List.map_cons]

theorem ofDataFields_eq (fields : List (String × Json)) :
    ofDataFields fields = fields.map fun f => (f.1, ofData f.2) := by
  induction fields with
  | nil => rfl
  | cons f fields ih => rw [ofDataFields, ih, List.map_cons]

theorem substituteItems_eq (bindings : Bindings) (items : List Template) :
    substituteItems bindings items = items.map (substitute bindings) := by
  induction items with
  | nil => rfl
  | cons t ts ih => rw [substituteItems, ih, List.map_cons]

theorem substituteFields_eq (bindings : Bindings) (fields : List (String × Template)) :
    substituteFields bindings fields = fields.map fun f => (f.1, f.2.substitute bindings) := by
  induction fields with
  | nil => rfl
  | cons f fields ih => rw [substituteFields, ih, List.map_cons]

/-- Data that looks like a subscript is none. -/
theorem subscripts_ofData (json : Json) : (ofData json).subscripts = [] := by
  induction json using Json.induction with
  | null | bool | int | float | string => rfl
  | array items ih =>
    rw [ofData, subscripts_sequence, ofDataItems_eq, List.flatMap_map, List.flatMap_eq_nil_iff]
    exact ih
  | object fields ih =>
    rw [ofData, subscripts_object, ofDataFields_eq, List.flatMap_map, List.flatMap_eq_nil_iff]
    exact ih

def isUnbound (bindings : Bindings) (subscript : String × String) : Bool :=
  (bindings.get? subscript.2).isNone

/-- One substitution takes the bound subscripts away and keeps the others in order. -/
theorem subscripts_substitute (bindings : Bindings) (t : Template) :
    (t.substitute bindings).subscripts = t.subscripts.filter (isUnbound bindings) := by
  induction t using Template.induction with
  | subscript base index =>
    rw [substitute, subscripts_subscript, List.filter_singleton, isUnbound]
    cases bindings.get? index with
    | some value => exact subscripts_ofData value
    | none => rfl
  | text s =>
    rw [substitute]
    split
    · exact subscripts_ofData _
    · rfl
  | scalar value => rfl
  | sequence items ih =>
    rw [substitute, subscripts_sequence, subscripts_sequence, substituteItems_eq,
      List.flatMap_map, List.filter_flatMap]
    exact List.flatMap_congr ih
  | object fields ih =>
    rw [substitute, subscripts_object, subscripts_object, substituteFields_eq, List.flatMap_map,
      List.filter_flatMap]
    exact List.flatMap_congr ih

/-- The columns that a template stands for are those of its bound subscripts. -/
theorem indexList_eq (bindings : Bindings) (t : Template) :
    t.indexList bindings =
      t.subscripts.filterMap fun s => (bindings.get? s.2).map Json.display := by
  have hitems : ∀ items : List Template,
      indexLists bindings items = items.flatMap (indexList bindings) := by
    intro items
    induction items with
    | nil => rfl
    | cons t ts ih => rw [indexLists, ih, List.flatMap_cons]
  have hfields : ∀ fields : List (String × Template),
      fieldIndexLists bindings fields = fields.flatMap fun f => f.2.indexList bindings := by
    intro fields
    induction fields with
    | nil => rfl
    | cons f fields ih => rw [fieldIndexLists, ih, List.flatMap_cons]
  induction t using Template.induction with
  | subscript base index =>
    rw [indexList, subscripts_subscript, List.filterMap_cons, List.filterMap_nil]
    cases bindings.get? index <;> rfl
  | text | scalar => rfl
  | sequence items ih =>
    rw [indexList, hitems, subscripts_sequence, List.filterMap_flatMap]
    exact List.flatMap_congr ih
  | object fields ih =>
    rw [indexList, hfields, subscripts_object, List.filterMap_flatMap]
    exact List.flatMap_congr ih

end Template

end ColumnRules
