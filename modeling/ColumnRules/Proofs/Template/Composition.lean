import ColumnRules.Proofs.Template.Contents
import ColumnRules.Proofs.Template.Walk

/-!
# Two substitutions as one

Substituting twice is substituting once, with the second bindings put into the values of the first.
Bound values are data, and as data a template and its JSON value determine each other.
-/

set_option autoImplicit false

namespace ColumnRules

namespace Dictionary

variable {α β : Type}

def mapValues (f : α → β) (d : Dictionary α) : Dictionary β :=
  ⟨d.entries.map fun e => (e.1, f e.2), List.pairwise_map.mpr d.ascending⟩

theorem get?_mapValues (f : α → β) (d : Dictionary α) (name : String) :
    (d.mapValues f).get? name = (d.get? name).map f := by
  have hlookup : ∀ entries : List (String × α),
      lookup name (entries.map fun e => (e.1, f e.2)) = (lookup name entries).map f := by
    intro entries
    induction entries with
    | nil => rfl
    | cons e entries ih =>
      rw [List.map_cons, lookup, lookup, ih]
      split <;> rfl
  exact hlookup d.entries

end Dictionary

namespace Template

/-- What bound values become: no subscripts, and no scalars that are texts, lists or objects. -/
def data : Demand where
  base _ := False
  names _ := True
  value json := json.IsScalar

theorem data_supplied (json : Json) : data.Supplied json := by
  cases json <;> trivial

theorem meets_data_ofData (json : Json) : (ofData json).Meets data :=
  meets_ofData fun node _ => data_supplied node

theorem toItems_eq (items : List Template) : toItems items = items.map toJson := by
  induction items with
  | nil => rfl
  | cons t ts ih => rw [toItems, ih, List.map_cons]

theorem toFields_eq (fields : List (String × Template)) :
    toFields fields = fields.map fun f => (f.1, f.2.toJson) := by
  induction fields with
  | nil => rfl
  | cons f fields ih => rw [toFields, ih, List.map_cons]

theorem toJson_ofData (json : Json) : (ofData json).toJson = json := by
  induction json using Json.induction with
  | null | bool | int | float | string => rfl
  | array items ih =>
    rw [ofData, toJson, ofDataItems_eq, toItems_eq, List.map_map]
    exact congrArg Json.array ((List.map_congr_left ih).trans (List.map_id _))
  | object fields ih =>
    have hfields : ∀ f ∈ fields, (f.1, (ofData f.2).toJson) = f :=
      fun f hf => Prod.ext rfl (ih f hf)
    rw [ofData, toJson, ofDataFields_eq, toFields_eq, List.map_map]
    exact congrArg Json.object ((List.map_congr_left hfields).trans (List.map_id _))

theorem ofData_toJson {t : Template} (h : t.Meets data) : ofData t.toJson = t := by
  induction t using Template.induction with
  | subscript base index => exact (meets_subscript.mp h).elim
  | text s => rfl
  | scalar value =>
    have hvalue : value.IsScalar := meets_scalar.mp h
    cases value with
    | null | bool | int | float => rfl
    | string | array | object => exact hvalue.elim
  | sequence items ih =>
    have hitems : ∀ t ∈ items, ofData t.toJson = t :=
      fun t ht => ih t ht (meets_sequence.mp h t ht)
    rw [toJson, ofData, toItems_eq, ofDataItems_eq, List.map_map]
    exact congrArg Template.sequence ((List.map_congr_left hitems).trans (List.map_id _))
  | object fields ih =>
    have hfields : ∀ f ∈ fields, (f.1, ofData f.2.toJson) = f :=
      fun f hf => Prod.ext rfl (ih f hf ((meets_object.mp h).2 f hf))
    rw [toJson, ofData, toFields_eq, ofDataFields_eq, List.map_map]
    exact congrArg Template.object ((List.map_congr_left hfields).trans (List.map_id _))

/-- A bound value after a further substitution. -/
def rebound (bindings : Bindings) (value : Json) : Json :=
  ((ofData value).substitute bindings).toJson

theorem ofData_rebound (bindings : Bindings) (value : Json) :
    ofData (rebound bindings value) = (ofData value).substitute bindings :=
  ofData_toJson ((meets_data_ofData value).substitute fun _ _ _ node _ => data_supplied node)

end Template

/-- Each name of the first bindings with its value after a substitution of the second, and each
other name of the second with its value. -/
def Bindings.andThen (first second : Bindings) : Bindings :=
  second.merge (first.mapValues (Template.rebound second))

theorem Bindings.get?_andThen (first second : Bindings) (name : String) :
    (first.andThen second).get? name =
      ((first.get? name).map (Template.rebound second)).or (second.get? name) := by
  rw [andThen, Dictionary.get?_merge, Dictionary.get?_mapValues]

/-- No string anywhere in a bound value is a bound name. -/
def Bindings.IsFinal (bindings : Bindings) : Prop :=
  ∀ name value, bindings.get? name = some value →
    ∀ word, .string word ∈ value.nodes → bindings.get? word = none

namespace Template

theorem substitute_twice (t : Template) (first second : Bindings) :
    (t.substitute first).substitute second = t.substitute (first.andThen second) := by
  induction t using Template.induction with
  | subscript base index =>
    rw [substitute, substitute, Bindings.get?_andThen]
    -- A bound value is data from here on, and only its strings are replaced once more.
    cases hfirst : first.get? index with
    | some value => exact (ofData_rebound second value).symm
    | none => rfl
  | text s =>
    rw [substitute, substitute, Bindings.get?_andThen]
    cases hfirst : first.get? s with
    | some value => exact (ofData_rebound second value).symm
    | none => rfl
  | scalar value => rfl
  | sequence items ih =>
    simp only [substitute, substituteItems_eq, List.map_map, sequence.injEq]
    exact List.map_congr_left ih
  | object fields ih =>
    simp only [substitute, substituteFields_eq, List.map_map, object.injEq]
    apply List.map_congr_left
    intro f hf
    exact Prod.ext rfl (ih f hf)

theorem substitute_congr {bindings others : Bindings}
    (h : ∀ name, bindings.get? name = others.get? name) (t : Template) :
    t.substitute bindings = t.substitute others := by
  induction t using Template.induction with
  | subscript | text => simp only [substitute, h]
  | scalar => rfl
  | sequence items ih =>
    simp only [substitute, substituteItems_eq, sequence.injEq]
    exact List.map_congr_left ih
  | object fields ih =>
    simp only [substitute, substituteFields_eq, object.injEq]
    apply List.map_congr_left
    intro f hf
    exact Prod.ext rfl (ih f hf)

/-- Data whose strings are not bound is left as it is. -/
theorem substitute_ofData_of_unbound {bindings : Bindings} {value : Json}
    (h : ∀ word, .string word ∈ value.nodes → bindings.get? word = none) :
    (ofData value).substitute bindings = ofData value := by
  induction value using Json.induction with
  | null | bool | int | float => rfl
  | string s => rw [ofData, substitute, h s (Json.mem_nodes_self _)]
  | array items ih =>
    simp only [ofData, ofDataItems_eq, substitute, substituteItems_eq, List.map_map,
      sequence.injEq]
    apply List.map_congr_left
    intro item hitem
    exact ih item hitem fun word hword => h word (Json.mem_nodes_item hitem hword)
  | object fields ih =>
    simp only [ofData, ofDataFields_eq, substitute, substituteFields_eq, List.map_map,
      object.injEq]
    apply List.map_congr_left
    intro f hf
    exact Prod.ext rfl (ih f hf fun word hword => h word (Json.mem_nodes_field hf hword))

end Template

theorem Bindings.IsFinal.get?_andThen {bindings : Bindings} (h : bindings.IsFinal)
    (name : String) : (bindings.andThen bindings).get? name = bindings.get? name := by
  rw [Bindings.get?_andThen]
  cases hbound : bindings.get? name with
  | some value =>
    have hvalue : Template.rebound bindings value = value := by
      rw [Template.rebound, Template.substitute_ofData_of_unbound (h name value hbound),
        Template.toJson_ofData]
    rw [Option.map_some, hvalue, Option.some_or]
  | none => rfl

namespace Template

/-- Two substitutions are one of the composed bindings. With the same bindings again a template
stays as it is, if no string in a bound value is a bound name. -/
theorem substitute_substitute (t : Template) (first second : Bindings) :
    (t.substitute first).substitute second = t.substitute (first.andThen second) ∧
      (∀ name, (first.andThen second).get? name =
        match first.get? name with
        | some value => some ((ofData value).substitute second).toJson
        | none => second.get? name) ∧
      (first.IsFinal → (t.substitute first).substitute first = t.substitute first) := by
  refine ⟨substitute_twice t first second, ?_, ?_⟩
  · intro name
    rw [Bindings.get?_andThen]
    cases first.get? name <;> rfl
  · intro hfinal
    rw [substitute_twice, substitute_congr hfinal.get?_andThen]

theorem substitute_substitute_nested :
    let t : Template := object [("op", text "op"), ("left", subscript "x" "i"), ("i", text "j")]
    let first : Bindings := (Dictionary.empty.insert "i" (.array [.string "k", .int 1])).insert
      "op" (.object [("op", .string "<")])
    let second : Bindings := (Dictionary.empty.insert "j" .null).insert "k" (.string "i")
    t.substitute first = object [("op", object [("op", text "<")]),
      ("left", sequence [text "k", scalar (.int 1)]), ("i", text "j")] ∧
      (t.substitute first).substitute second = object [("op", object [("op", text "<")]),
        ("left", sequence [text "i", scalar (.int 1)]), ("i", scalar .null)] ∧
      first.IsFinal ∧
      (t.substitute first).substitute second = t.substitute (first.andThen second) ∧
      (∀ name, (first.andThen second).get? name =
        match first.get? name with
        | some value => some ((ofData value).substitute second).toJson
        | none => second.get? name) ∧
      (t.substitute first).substitute first = t.substitute first := by
  intro t first second
  have hfinal : first.IsFinal := by
    have hget (name : String) : first.get? name =
        if "op" = name then some (.object [("op", .string "<")])
        else if "i" = name then some (.array [.string "k", .int 1]) else none := by
      simp only [first, Dictionary.get?_insert, Dictionary.get?_empty]
    intro name value hbound word hword
    rw [hget] at hbound ⊢
    split at hbound
    · cases hbound
      have hword : word = "<" := by
        simpa [Json.nodes, Json.fieldNodes] using hword
      rw [hword]
      rfl
    split at hbound
    · cases hbound
      have hword : word = "k" := by
        simpa [Json.nodes, Json.itemNodes] using hword
      rw [hword]
      rfl
    · cases hbound
  obtain ⟨htwice, hcomposed, hagain⟩ := substitute_substitute t first second
  exact ⟨rfl, rfl, hfinal, htwice, hcomposed, hagain hfinal⟩

end Template

end ColumnRules
