import ColumnRules.ColumnSet
import ColumnRules.Dictionary
import ColumnRules.Render

/-!
# Condition templates

A template is a condition as the rule generator sends it: nested objects and lists with
placeholders. A subscript stands for a column of the data; a text stands for whatever is bound to
it, or for itself. Substitution never looks into bound data for further subscripts.
-/

set_option autoImplicit false

namespace ColumnRules

inductive Template where
  | subscript (base index : String)
  | sequence (items : List Template)
  | object (fields : List (String × Template))
  | text (s : String)
  | scalar (value : Json)

namespace Template

/-- The index of an object that subscripts `base`. A whole number is an index by its digits. -/
def subscriptIndex? (base : String) (fields : List (String × Json)) : Option String :=
  match Json.field? "base" fields with
  | some (.string marker) =>
    if marker = base then
      match Json.field? "index" fields with
      | some (.string index) => some index
      | some (.int n) => some (String.ofList (Json.intText n))
      | _ => none
    else none
  | _ => none

mutual

/-- The template of a generated condition, with the subscripts of `base` recognised. -/
def ofJson (base : String) : Json → Template
  | .array items => sequence (ofItems base items)
  | .object fields =>
    match subscriptIndex? base fields with
    | some index => subscript base index
    | none => object (ofFields base fields)
  | .string s => text s
  | json => scalar json

def ofItems (base : String) : List Json → List Template
  | [] => []
  | json :: jsons => ofJson base json :: ofItems base jsons

def ofFields (base : String) : List (String × Json) → List (String × Template)
  | [] => []
  | (name, json) :: fields => (name, ofJson base json) :: ofFields base fields

end

mutual

/-- The template of a bound value. Bound data is concrete and holds no subscripts. -/
def ofData : Json → Template
  | .array items => sequence (ofDataItems items)
  | .object fields => object (ofDataFields fields)
  | .string s => text s
  | json => scalar json

def ofDataItems : List Json → List Template
  | [] => []
  | json :: jsons => ofData json :: ofDataItems jsons

def ofDataFields : List (String × Json) → List (String × Template)
  | [] => []
  | (name, json) :: fields => (name, ofData json) :: ofDataFields fields

end

mutual

def toJson : Template → Json
  | subscript base index => .object [("base", .string base), ("index", .string index)]
  | sequence items => .array (toItems items)
  | object fields => .object (toFields fields)
  | text s => .string s
  | scalar json => json

def toItems : List Template → List Json
  | [] => []
  | t :: ts => t.toJson :: toItems ts

def toFields : List (String × Template) → List (String × Json)
  | [] => []
  | (name, t) :: fields => (name, t.toJson) :: toFields fields

end

mutual

/-- Replaces bound subscripts and bound texts by their values and copies all else. -/
def substitute (bindings : Bindings) : Template → Template
  | subscript base index =>
    match bindings.get? index with
    | some value => ofData value
    | none => subscript base index
  | sequence items => sequence (substituteItems bindings items)
  | object fields => object (substituteFields bindings fields)
  | text s =>
    match bindings.get? s with
    | some value => ofData value
    | none => text s
  | scalar json => scalar json

def substituteItems (bindings : Bindings) : List Template → List Template
  | [] => []
  | t :: ts => t.substitute bindings :: substituteItems bindings ts

def substituteFields (bindings : Bindings) :
    List (String × Template) → List (String × Template)
  | [] => []
  | (name, t) :: fields => (name, t.substitute bindings) :: substituteFields bindings fields

end

mutual

/-- The columns that the bound subscripts stand for, in order and with repetitions. -/
def indexList (bindings : Bindings) : Template → List String
  | subscript _ index =>
    match bindings.get? index with
    | some value => [value.display]
    | none => []
  | sequence items => indexLists bindings items
  | object fields => fieldIndexLists bindings fields
  | _ => []

def indexLists (bindings : Bindings) : List Template → List String
  | [] => []
  | t :: ts => t.indexList bindings ++ indexLists bindings ts

def fieldIndexLists (bindings : Bindings) : List (String × Template) → List String
  | [] => []
  | (_, t) :: fields => t.indexList bindings ++ fieldIndexLists bindings fields

end

/-- The distinct columns that the bound subscripts stand for. -/
def indices (t : Template) (bindings : Bindings) : ColumnSet :=
  ColumnSet.ofList (t.indexList bindings)

end Template

end ColumnRules
