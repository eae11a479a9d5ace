import ColumnRules.Json.Scalar

/-!
# Reading JSON text

The value of a whole text, nothing but blanks around it. Arrays and objects nest at most 127 deep.
-/

set_option autoImplicit false

namespace ColumnRules

namespace Json

/-- The items of an array, separated by commas, up to the closing bracket. Every item takes at
least one character, so the length of the text bounds their number. -/
def items (element : Reader Json) : Nat → Reader (List Json)
  | 0, _ => none
  | bound + 1, s => do
    let (item, s) ← element s
    match skipSpace s with
    | ',' :: s =>
      let (rest, s) ← items element bound s
      some (item :: rest, s)
    | ']' :: s => some ([item], s)
    | _ => none

/-- The fields of an object, as `items`. How a value is read may depend on the name before it. -/
def fields {α : Type} (element : String → Reader α) : Nat → Reader (List (String × α))
  | 0, _ => none
  | bound + 1, s =>
    match skipSpace s with
    | '"' :: s => do
      let (chars, s) ← stringBody s
      let name := String.ofList chars
      match skipSpace s with
      | ':' :: s =>
        let (value, s) ← element name s
        match skipSpace s with
        | ',' :: s =>
          let (rest, s) ← fields element bound s
          some ((name, value) :: rest, s)
        | '}' :: s => some ([(name, value)], s)
        | _ => none
      | _ => none
    | _ => none

def arrayBody (element : Reader Json) : Reader (List Json) := fun s =>
  match skipSpace s with
  | ']' :: s => some ([], s)
  | s => items element (s.length + 1) s

def objectBody {α : Type} (element : String → Reader α) : Reader (List (String × α)) := fun s =>
  match skipSpace s with
  | '}' :: s => some ([], s)
  | s => fields element (s.length + 1) s

def scalarValue : Reader Json := fun s => do
  let (form, s) ← scalar (skipSpace s)
  let json ← form.value?
  some (json, s)

/-- A value with containers nested at most `room` deep. -/
def valueWithin : Nat → Reader Json
  | 0, s => scalarValue s
  | room + 1, s =>
    match skipSpace s with
    | '[' :: s => (arrayBody (valueWithin room) s).map fun (items, s) => (array items, s)
    | '\x7b' :: s =>
      (objectBody (fun _ => valueWithin room) s).map fun (fields, s) => (object fields, s)
    | s => scalarValue s

def maxNesting : Nat := 127

/-- What a reader makes of a whole text. -/
def whole? {α : Type} (reader : Reader α) (text : String) : Option α :=
  match reader text.toList with
  | some (a, rest) => if (skipSpace rest).isEmpty then some a else none
  | none => none

/-- The value written by the whole text, repeated field names kept. -/
def ofText? (text : String) : Option Json := whole? (valueWithin maxNesting) text

/-- The value written by the whole text, with every field name once. -/
def settledOfText? (text : String) : Option Json := (ofText? text).map settled

end Json

end ColumnRules
