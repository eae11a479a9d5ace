import ColumnRules.Json.Skip

/-!
# Reading records

A record is an object of which only the known fields are read, each by a reader of its own, and all
others skipped. It may also be written as the list of its fields' values in their order, where the
last ones may be absent.
-/

set_option autoImplicit false

namespace ColumnRules

namespace Json

/-- The known fields of a record in their order. -/
abbrev Layout := List (String × Reader Json)

namespace Layout

def fieldValue (layout : Layout) (name : String) : Reader (Option Json) := fun s =>
  match layout.lookup name with
  | some reader => (reader s).map fun (json, s) => (some json, s)
  | none => (skip s).map fun s => (none, s)

def values : Layout → Reader (List (String × Json))
  | [], _ => none
  | (name, reader) :: layout, s => do
    let (json, s) ← reader s
    match skipSpace s with
    | ',' :: s =>
      let (rest, s) ← values layout s
      some ((name, json) :: rest, s)
    | ']' :: s => some ([(name, json)], s)
    | _ => none

end Layout

/-- The known fields that a record gives, as an object. -/
def record (layout : Layout) : Reader Json := fun s =>
  match skipSpace s with
  | '[' :: s =>
    match skipSpace s with
    | ']' :: s => some (object [], s)
    | s => (layout.values s).map fun (fields, s) => (object fields, s)
  | '\x7b' :: s =>
    (objectBody layout.fieldValue s).map fun (fields, s) =>
      (object (fields.filterMap fun f => f.2.map fun json => (f.1, json)), s)
  | _ => none

end Json

end ColumnRules
