import ColumnRules.Operator

/-!
# Operator symbols of rule text

The symbol table is wider than the rule language, so that text outside the language is cut into
the tokens its writer meant and refused by name. At each place the longest symbol counts.
-/

set_option autoImplicit false

namespace ColumnRules

inductive Symbol where
  | add
  | sub
  | mul
  | div
  | rem
  | power
  | eq
  | ne
  | strictEq
  | strictNe
  | lt
  | gt
  | le
  | ge
  | and
  | or
  | coalesce
  | bitAnd
  | bitOr
  | bitXor
  | shiftLeft
  | shiftRight
  | shiftRightZero
  | not
  | complement
  | increment
  | decrement
  | question
  | colon
  | dot
  | arrow
  | assign
  | addAssign
  | subAssign
  | mulAssign
  | divAssign
  | remAssign
  | powerAssign
  | shiftLeftAssign
  | shiftRightAssign
  | shiftRightZeroAssign
  | bitAndAssign
  | bitOrAssign
  | bitXorAssign
  | andAssign
  | orAssign
  | coalesceAssign
  deriving DecidableEq

namespace Symbol

def text : Symbol → String
  | add => "+"
  | sub => "-"
  | mul => "*"
  | div => "/"
  | rem => "%"
  | power => "**"
  | eq => "=="
  | ne => "!="
  | strictEq => "==="
  | strictNe => "!=="
  | lt => "<"
  | gt => ">"
  | le => "<="
  | ge => ">="
  | and => "&&"
  | or => "||"
  | coalesce => "??"
  | bitAnd => "&"
  | bitOr => "|"
  | bitXor => "^"
  | shiftLeft => "<<"
  | shiftRight => ">>"
  | shiftRightZero => ">>>"
  | not => "!"
  | complement => "~"
  | increment => "++"
  | decrement => "--"
  | question => "?"
  | colon => ":"
  | dot => "."
  | arrow => "=>"
  | assign => "="
  | addAssign => "+="
  | subAssign => "-="
  | mulAssign => "*="
  | divAssign => "/="
  | remAssign => "%="
  | powerAssign => "**="
  | shiftLeftAssign => "<<="
  | shiftRightAssign => ">>="
  | shiftRightZeroAssign => ">>>="
  | bitAndAssign => "&="
  | bitOrAssign => "|="
  | bitXorAssign => "^="
  | andAssign => "&&="
  | orAssign => "||="
  | coalesceAssign => "??="

/-- All symbols, longer ones first. -/
def all : List Symbol := [
  shiftRightZeroAssign,
  strictEq, strictNe, powerAssign, shiftLeftAssign, shiftRightAssign, shiftRightZero, andAssign,
  orAssign, coalesceAssign,
  eq, ne, le, ge, and, or, coalesce, power, shiftLeft, shiftRight, increment, decrement,
  addAssign, subAssign, mulAssign, divAssign, remAssign, bitAndAssign, bitOrAssign, bitXorAssign,
  arrow,
  add, sub, mul, div, rem, lt, gt, assign, not, bitAnd, bitOr, bitXor, complement, question,
  colon, dot]

def longest? (s : List Char) : Option Symbol := all.find? fun op => op.text.toList.isPrefixOf s

def precedence? : Symbol → Option Nat
  | coalesce => some 1
  | or => some 2
  | and => some 3
  | bitOr => some 4
  | bitXor => some 5
  | bitAnd => some 6
  | eq | ne | strictEq | strictNe => some 7
  | lt | gt | le | ge => some 8
  | shiftLeft | shiftRight | shiftRightZero => some 9
  | add | sub => some 10
  | mul | div | rem => some 11
  | power => some 12
  | _ => none

/-- The operators that join conditions; their phrases are logical. -/
def isLogical : Symbol → Bool
  | and | or | coalesce => true
  | _ => false

def isAssignment : Symbol → Bool
  | assign | addAssign | subAssign | mulAssign | divAssign | remAssign | powerAssign
  | shiftLeftAssign | shiftRightAssign | shiftRightZeroAssign | bitAndAssign | bitOrAssign
  | bitXorAssign | andAssign | orAssign | coalesceAssign => true
  | _ => false

/-- The operators in front of one operand that leave it unchanged in place. -/
def isUnary : Symbol → Bool
  | not | sub | add | complement => true
  | _ => false

def isUpdate : Symbol → Bool
  | increment | decrement => true
  | _ => false

def binary? : Symbol → Option BinaryOp
  | add => some (.arith .add)
  | sub => some (.arith .sub)
  | mul => some (.arith .mul)
  | div => some (.arith .div)
  | le => some (.compare .le)
  | ge => some (.compare .ge)
  | lt => some (.compare .lt)
  | gt => some (.compare .gt)
  | eq => some (.compare .eq)
  | ne => some (.compare .ne)
  | _ => none

def logical? : Symbol → Option LogicalOp
  | and => some .and
  | or => some .or
  | _ => none

theorem binary?_eq_ofSymbol? (op : Symbol) : op.binary? = BinaryOp.ofSymbol? op.text := by
  cases op <;> decide

theorem logical?_eq_ofSurface? (op : Symbol) : op.logical? = LogicalOp.ofSurface? op.text := by
  cases op <;> decide

end Symbol

end ColumnRules
