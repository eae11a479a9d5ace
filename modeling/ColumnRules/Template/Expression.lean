import ColumnRules.Expr.Basic
import ColumnRules.Template.Basic

/-!
# Templates and expressions

An object with the fields `left`, `op` and `right` is a binary node, one with `op` and a list
`values` a logical node; a list is a sequence, a text a name and a number a literal. Other fields
and their order do not matter.
-/

set_option autoImplicit false

namespace ColumnRules

inductive TemplateError where
  | operator (error : OperatorError)
  | unrecognized (json : Json)

def TemplateError.message : TemplateError → String
  | operator error => error.message
  | unrecognized json => "unrecognized template node: " ++ json.compact

namespace Template

def field? (name : String) (fields : List (String × Template)) : Option Template :=
  (fields.find? fun f => f.1 == name).map (·.2)

def operator? (fields : List (String × Template)) : Option String :=
  match field? "op" fields with
  | some (text op) => some op
  | _ => none

mutual

/-- The expression that a template writes. The operator is examined before its operands. -/
def toExpr : Template → Except TemplateError Expr
  | subscript base index => .ok (.subscript base index)
  | sequence items =>
    match toExprs items with
    | .error e => .error e
    | .ok items => .ok (.sequence items)
  | text name => .ok (.var name)
  | scalar json =>
    match json.toBinary64? with
    | some x => .ok (.literal x)
    | none => .error (.unrecognized json)
  | object fields =>
    match operator? fields with
    | none => .error (.unrecognized (object fields).toJson)
    | some op =>
      match fieldExpr? "left" fields, fieldExpr? "right" fields with
      | some left, some right =>
        match BinaryOp.ofSymbol op, left, right with
        | .error e, _, _ => .error (.operator e)
        | .ok _, .error e, _ => .error e
        | .ok _, .ok _, .error e => .error e
        | .ok op, .ok left, .ok right => .ok (.binary left op right)
      | _, _ =>
        match fieldExprs? "values" fields with
        | some operands =>
          match LogicalOp.ofTemplate op, operands with
          | .error e, _ => .error (.operator e)
          | .ok _, .error e => .error e
          | .ok op, .ok operands => .ok (.logical op operands)
        | none => .error (.unrecognized (object fields).toJson)

def fieldExpr? (name : String) : List (String × Template) → Option (Except TemplateError Expr)
  | [] => none
  | (other, t) :: fields => if other == name then some t.toExpr else fieldExpr? name fields

def fieldExprs? (name : String) :
    List (String × Template) → Option (Except TemplateError (List Expr))
  | [] => none
  | (other, t) :: fields => if other == name then listExprs? t else fieldExprs? name fields

def listExprs? : Template → Option (Except TemplateError (List Expr))
  | sequence items => some (toExprs items)
  | _ => none

def toExprs : List Template → Except TemplateError (List Expr)
  | [] => .ok []
  | t :: ts =>
    match t.toExpr, toExprs ts with
    | .error e, _ => .error e
    | .ok _, .error e => .error e
    | .ok e, .ok es => .ok (e :: es)

end

mutual

/-- The template of an expression, as the generator would send it. A literal that is no number of
JSON becomes null. -/
def ofExpr : Expr → Template
  | .literal x => scalar (if x.isFinite then .float x else .null)
  | .var name => text name
  | .subscript base index => subscript base index
  | .binary left op right =>
    object [("left", ofExpr left), ("op", text op.symbol), ("right", ofExpr right)]
  | .logical op operands => object [("op", text op.name), ("values", sequence (ofExprs operands))]
  | .sequence items => sequence (ofExprs items)

def ofExprs : List Expr → List Template
  | [] => []
  | e :: es => ofExpr e :: ofExprs es

end

end Template

end ColumnRules
