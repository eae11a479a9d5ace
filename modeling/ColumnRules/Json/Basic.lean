import ColumnRules.Number.Binary64

/-!
# JSON values

Whole numbers and floating point numbers are different values: `1` and `1.0` are written
differently and stay so. The fields of an object keep their order.
-/

set_option autoImplicit false

namespace ColumnRules

inductive Json where
  | null
  | bool (b : Bool)
  | int (n : Int)
  | float (x : Binary64)
  | string (s : String)
  | array (items : List Json)
  | object (fields : List (String × Json))

namespace Json

/-- The first field of that name. -/
def field? (name : String) (fields : List (String × Json)) : Option Json :=
  (fields.find? fun f => f.1 == name).map (·.2)

/-- Sets a field: a name that is there keeps its place, a new one goes to the end. -/
def put (name : String) (value : Json) : List (String × Json) → List (String × Json)
  | [] => [(name, value)]
  | f :: fields => if f.1 == name then (name, value) :: fields else f :: put name value fields

/-- Sets all fields in turn, so that of a repeated name the first place and the last value stay. -/
def putAll (fields : List (String × Json)) : List (String × Json) :=
  fields.foldl (fun done f => put f.1 f.2 done) []

mutual

def settled : Json → Json
  | array items => array (settledItems items)
  | object fields => object (putAll (settledFields fields))
  | json => json

def settledItems : List Json → List Json
  | [] => []
  | item :: items => item.settled :: settledItems items

def settledFields : List (String × Json) → List (String × Json)
  | [] => []
  | (name, value) :: fields => (name, value.settled) :: settledFields fields

end

/-- A number as a 64-bit value. A whole number is rounded to the nearest. -/
def toBinary64? : Json → Option Binary64
  | int n => some (.ofInt n)
  | float x => some x
  | _ => none

end Json

end ColumnRules
