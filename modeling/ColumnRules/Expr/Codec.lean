import ColumnRules.Expr.Basic
import ColumnRules.Json.Fields

/-!
# Expressions as JSON

An expression is an object whose `kind` names its constructor, next to the fields of the
constructor. Reading also takes the positional form, an array of the kind and the field values in
order. Unknown fields are ignored; a known field must be there exactly once.
-/

set_option autoImplicit false

namespace ColumnRules

namespace Expr

/-- The constructors of expressions, in the order of their positions. -/
inductive Kind where
  | literal
  | var
  | subscript
  | binary
  | logical
  | sequence
  deriving DecidableEq

namespace Kind

def all : List Kind := [literal, var, subscript, binary, logical, sequence]

def tag : Kind → String
  | literal => "literal"
  | var => "var_ref"
  | subscript => "subscript"
  | binary => "binary"
  | logical => "logical"
  | sequence => "sequence"

/-- A kind is given by its tag; inside another expression its position will do as well. -/
def ofJson? (inner : Bool) : Json → Option Kind
  | .string tag => all.find? fun kind => kind.tag == tag
  | .int n => if inner && 0 ≤ n then all[n.toNat]? else none
  | _ => none

end Kind

mutual

/-- The tagged form. JSON has no infinities and no NaN, such literals become null. -/
def toJson : Expr → Json
  | literal x =>
    .object [("kind", .string "literal"), ("value", if x.isFinite then .float x else .null)]
  | var name => .object [("kind", .string "var_ref"), ("name", .string name)]
  | subscript base index =>
    .object [("kind", .string "subscript"), ("base", .string base), ("index", .string index)]
  | binary left op right =>
    .object [("kind", .string "binary"), ("left", left.toJson), ("op", .string op.symbol),
      ("right", right.toJson)]
  | logical op operands =>
    .object [("kind", .string "logical"), ("op", .string op.name),
      ("operands", .array (toJsons operands))]
  | sequence items => .object [("kind", .string "sequence"), ("items", .array (toJsons items))]

def toJsons : List Expr → List Json
  | [] => []
  | e :: es => e.toJson :: toJsons es

end

def binaryOpOfJson? (json : Json) : Option BinaryOp :=
  json.string?.bind BinaryOp.ofSymbol?

/-- A logical operator is written by its lower case name, alone or as the only field of an object
that holds nothing. -/
def logicalOpOfJson? : Json → Option LogicalOp
  | .string name => [LogicalOp.and, .or].find? fun op => op.name == name
  | .object [(name, .null)] => [LogicalOp.and, .or].find? fun op => op.name == name
  | .object [(name, .object [])] => [LogicalOp.and, .or].find? fun op => op.name == name
  | _ => none

mutual

def ofJsonAt? (inner : Bool) : Json → Option Expr
  | .object fields =>
    match (Json.sole? "kind" fields).bind (Kind.ofJson? inner) with
    | some .literal => ((Json.sole? "value" fields).bind Json.toBinary64?).map literal
    | some .var => ((Json.sole? "name" fields).bind Json.string?).map var
    | some .subscript => do
      let base ← (Json.sole? "base" fields).bind Json.string?
      let index ← (Json.sole? "index" fields).bind Json.string?
      some (subscript base index)
    | some .binary =>
      if ["left", "op", "right"].all (Json.occursOnce fields) then do
        let left ← ofField? "left" fields
        let op ← (Json.sole? "op" fields).bind binaryOpOfJson?
        let right ← ofField? "right" fields
        some (binary left op right)
      else none
    | some .logical =>
      if ["op", "operands"].all (Json.occursOnce fields) then do
        let op ← (Json.sole? "op" fields).bind logicalOpOfJson?
        let operands ← listOfField? "operands" fields
        some (logical op operands)
      else none
    | some .sequence =>
      if Json.occursOnce fields "items" then (listOfField? "items" fields).map sequence else none
    | none => none
  | .array [kind, a] =>
    match Kind.ofJson? inner kind with
    | some .literal => a.toBinary64?.map literal
    | some .var => a.string?.map var
    | some .sequence => (listOfJson? a).map sequence
    | _ => none
  | .array [kind, a, b] =>
    match Kind.ofJson? inner kind with
    | some .subscript => do
      let base ← a.string?
      let index ← b.string?
      some (subscript base index)
    | some .logical => do
      let op ← logicalOpOfJson? a
      let operands ← listOfJson? b
      some (logical op operands)
    | _ => none
  | .array [kind, a, b, c] =>
    match Kind.ofJson? inner kind with
    | some .binary => do
      let left ← ofJsonAt? true a
      let op ← binaryOpOfJson? b
      let right ← ofJsonAt? true c
      some (binary left op right)
    | _ => none
  | _ => none

def ofField? (name : String) : List (String × Json) → Option Expr
  | [] => none
  | (other, json) :: fields => if other == name then ofJsonAt? true json else ofField? name fields

def listOfField? (name : String) : List (String × Json) → Option (List Expr)
  | [] => none
  | (other, json) :: fields => if other == name then listOfJson? json else listOfField? name fields

def listOfJson? : Json → Option (List Expr)
  | .array items => ofJsons? items
  | _ => none

def ofJsons? : List Json → Option (List Expr)
  | [] => some []
  | json :: jsons =>
    match ofJsonAt? true json, ofJsons? jsons with
    | some e, some es => some (e :: es)
    | _, _ => none

end

def ofJson? (json : Json) : Option Expr := ofJsonAt? false json

end Expr

end ColumnRules
