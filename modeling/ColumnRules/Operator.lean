/-!
# Operators of rule conditions

A binary node computes or compares; its symbol tells which. A logical node joins conditions and
has two spellings: the surface symbol of rule text and the name used by generated templates.
-/

set_option autoImplicit false

namespace ColumnRules

inductive ArithOp where
  | add
  | sub
  | mul
  | div
  deriving DecidableEq

inductive CompareOp where
  | le
  | ge
  | lt
  | gt
  | eq
  | ne
  deriving DecidableEq

inductive BinaryOp where
  | arith (op : ArithOp)
  | compare (op : CompareOp)
  deriving DecidableEq

inductive LogicalOp where
  | and
  | or
  deriving DecidableEq

inductive OperatorError where
  | unknownBinary (op : String)
  | unknownLogical (op : String)
  deriving DecidableEq

def OperatorError.message : OperatorError → String
  | unknownBinary op => "unknown binary operator: " ++ op
  | unknownLogical op => "unknown logical operator: " ++ op

namespace ArithOp

def all : List ArithOp := [add, sub, mul, div]

def symbol : ArithOp → String
  | add => "+"
  | sub => "-"
  | mul => "*"
  | div => "/"

def ofSymbol? (symbol : String) : Option ArithOp := all.find? fun op => op.symbol == symbol

@[simp] theorem ofSymbol?_symbol (op : ArithOp) : ofSymbol? op.symbol = some op := by
  cases op <;> decide

end ArithOp

namespace CompareOp

def all : List CompareOp := [le, ge, lt, gt, eq, ne]

def symbol : CompareOp → String
  | le => "<="
  | ge => ">="
  | lt => "<"
  | gt => ">"
  | eq => "=="
  | ne => "!="

def ofSymbol? (symbol : String) : Option CompareOp := all.find? fun op => op.symbol == symbol

@[simp] theorem ofSymbol?_symbol (op : CompareOp) : ofSymbol? op.symbol = some op := by
  cases op <;> decide

end CompareOp

namespace BinaryOp

def symbol : BinaryOp → String
  | arith op => op.symbol
  | compare op => op.symbol

def ofSymbol? (symbol : String) : Option BinaryOp :=
  match ArithOp.ofSymbol? symbol with
  | some op => some (arith op)
  | none => (CompareOp.ofSymbol? symbol).map compare

def isComparison : BinaryOp → Bool
  | arith _ => false
  | compare _ => true

def ofSymbol (symbol : String) : Except OperatorError BinaryOp :=
  match ofSymbol? symbol with
  | some op => .ok op
  | none => .error (.unknownBinary symbol)

@[simp] theorem ofSymbol?_symbol (op : BinaryOp) : ofSymbol? op.symbol = some op := by
  rcases op with op | op <;> cases op <;> decide

end BinaryOp

namespace LogicalOp

def surface : LogicalOp → String
  | and => "&&"
  | or => "||"

def ofSurface? (symbol : String) : Option LogicalOp :=
  [and, or].find? fun op => op.surface == symbol

def name : LogicalOp → String
  | and => "and"
  | or => "or"

def display : LogicalOp → String
  | and => "AND"
  | or => "OR"

/-- Names are compared without regard to ASCII case. -/
def ofName (name : String) : Except OperatorError LogicalOp :=
  let lower := name.toList.map Char.toLower
  if lower = LogicalOp.and.name.toList then .ok and
  else if lower = LogicalOp.or.name.toList then .ok or
  else .error (.unknownLogical name)

/-- A template may use either spelling; an unknown one is reported as a name. -/
def ofTemplate (spelling : String) : Except OperatorError LogicalOp :=
  match ofSurface? spelling with
  | some op => .ok op
  | none => ofName spelling

@[simp] theorem ofSurface?_surface (op : LogicalOp) : ofSurface? op.surface = some op := by
  cases op <;> decide

@[simp] theorem ofName_name (op : LogicalOp) : ofName op.name = .ok op := by
  cases op <;> rfl

end LogicalOp

end ColumnRules
