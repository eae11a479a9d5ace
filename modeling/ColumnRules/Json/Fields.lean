import ColumnRules.Dictionary
import ColumnRules.Json.Basic

/-!
# Reading typed values out of JSON

A field that is known must not be repeated. Whether it may be missing is up to its reader.
-/

set_option autoImplicit false

namespace ColumnRules

namespace Json

variable {α : Type}

def occurrences (name : String) (fields : List (String × Json)) : List Json :=
  (fields.filter fun f => f.1 == name).map (·.2)

/-- The value of a field that is there exactly once. -/
def sole? (name : String) (fields : List (String × Json)) : Option Json :=
  match occurrences name fields with
  | [json] => some json
  | _ => none

def occursOnce (fields : List (String × Json)) (name : String) : Bool := (sole? name fields).isSome

/-- The value of a field that is there at most once. -/
def optional (name : String) (read : Json → Option α) (missing : α)
    (fields : List (String × Json)) : Option α :=
  match occurrences name fields with
  | [] => some missing
  | [json] => read json
  | _ => none

/-- The value at a position that may lie behind the end. -/
def positional (index : Nat) (read : Json → Option α) (missing : α) (items : List Json) :
    Option α :=
  match items[index]? with
  | some json => read json
  | none => some missing

def string? : Json → Option String
  | string s => some s
  | _ => none

def listOf? (read : Json → Option α) : Json → Option (List α)
  | array items => items.mapM read
  | _ => none

/-- An object as a dictionary; of a repeated name the last value counts. -/
def dictionaryOf? (read : Json → Option α) : Json → Option (Dictionary α)
  | object fields =>
    (fields.mapM fun f => (read f.2).map fun value => (f.1, value)).map Dictionary.ofList
  | _ => none

def ofDictionary (write : α → Json) (d : Dictionary α) : Json :=
  object (d.entries.map fun e => (e.1, write e.2))

def bindings? : Json → Option Bindings := dictionaryOf? some

end Json

end ColumnRules
