import ColumnRules.Json.Reader

/-!
# Skipping JSON values

A value that nobody reads only has to have the right form: brackets close what they opened, strings
end, numerals and escapes are whole. How deep it nests, whether its numbers overflow and whether
its surrogates come in pairs does not matter.
-/

set_option autoImplicit false

namespace ColumnRules

namespace Json

/-- A container around the place where a skip stands. -/
inductive Enclosure where
  | array
  | object
  deriving DecidableEq

namespace Enclosure

def closing : Enclosure → Char
  | array => ']'
  | object => '\x7d'

def skipName (s : List Char) : Option (List Char) :=
  match skipSpace s with
  | '"' :: s => do
    let (_, s) ← pieces s
    match skipSpace s with
    | ':' :: s => some s
    | _ => none
  | _ => none

/-- The text of the next value, behind its name if it has one. -/
def next : Enclosure → List Char → Option (List Char)
  | array, s => some s
  | object, s => skipName s

end Enclosure

/-- From the end of a value out of all containers that close there, and behind a comma on to the
next value. The skip is over where no container is left. -/
def leave : List Enclosure → List Char → Option (List Enclosure × List Char)
  | [], s => some ([], s)
  | e :: outer, s =>
    match skipSpace s with
    | ',' :: s => (e.next s).map fun s => (e :: outer, s)
    | c :: s => if c == e.closing then leave outer s else none
    | [] => none

/-- From an opening bracket on to the first value inside; an empty container is left at once. -/
def enter (e : Enclosure) (outer : List Enclosure) (s : List Char) :
    Option (List Enclosure × List Char) :=
  match skipSpace s with
  | c :: rest =>
    if c == e.closing then leave outer rest else (e.next (c :: rest)).map fun s => (e :: outer, s)
  | [] => none

def skipStep (outer : List Enclosure) (s : List Char) : Option (List Enclosure × List Char) :=
  match skipSpace s with
  | '[' :: s => enter .array outer s
  | '\x7b' :: s => enter .object outer s
  | s => (scalar s).bind fun (_, s) => leave outer s

def skipWithin : Nat → List Enclosure → List Char → Option (List Char)
  | 0, _, _ => none
  | bound + 1, outer, s =>
    match skipStep outer s with
    | none => none
    | some ([], s) => some s
    | some (e :: outer, s) => skipWithin bound (e :: outer) s

/-- The text behind a value. Every step takes at least one character, so the length of the text
bounds their number. -/
def skip (s : List Char) : Option (List Char) := skipWithin (s.length + 1) [] s

end Json

end ColumnRules
