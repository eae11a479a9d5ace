import ColumnRules.ColumnSet
import ColumnRules.Number.Binary64
import ColumnRules.Operator

/-!
# Rule expressions

The condition of a rule: literals, column names, subscripts of a base, computations and
comparisons of two operands, logical nodes over any number of operands, and sequences, all of
whose items must hold.
-/

set_option autoImplicit false

namespace ColumnRules

inductive Expr where
  | literal (value : Binary64)
  | var (name : String)
  | subscript (base index : String)
  | binary (left : Expr) (op : BinaryOp) (right : Expr)
  | logical (op : LogicalOp) (operands : List Expr)
  | sequence (items : List Expr)

namespace Expr

def isComparison : Expr → Bool
  | binary _ op _ => op.isComparison
  | _ => false

mutual

/-- The names of the expression from left to right, with repetitions. -/
def varList : Expr → List String
  | var name => [name]
  | binary left _ right => left.varList ++ right.varList
  | logical _ operands => varLists operands
  | sequence items => varLists items
  | _ => []

def varLists : List Expr → List String
  | [] => []
  | e :: es => e.varList ++ varLists es

end

/-- The distinct names of the expression. Subscripts are not names. -/
def varNames (e : Expr) : ColumnSet := ColumnSet.ofList e.varList

mutual

/-- Every name becomes a subscript of `base`. -/
def subscriptColumns (base : String) : Expr → Expr
  | var name => subscript base name
  | binary left op right => binary (left.subscriptColumns base) op (right.subscriptColumns base)
  | logical op operands => logical op (subscriptAll base operands)
  | sequence items => sequence (subscriptAll base items)
  | e => e

def subscriptAll (base : String) : List Expr → List Expr
  | [] => []
  | e :: es => e.subscriptColumns base :: subscriptAll base es

end

mutual

/-- Equality of expressions whose literals are compared as numbers: both zeros are equal. -/
def sameValue : Expr → Expr → Bool
  | literal x, literal y => x.sameValue y
  | var a, var b => a == b
  | subscript a i, subscript b j => a == b && i == j
  | binary a p b, binary c q d => p == q && (a.sameValue c && b.sameValue d)
  | logical p as, logical q bs => p == q && sameValues as bs
  | sequence as, sequence bs => sameValues as bs
  | _, _ => false

def sameValues : List Expr → List Expr → Bool
  | [], [] => true
  | a :: as, b :: bs => a.sameValue b && sameValues as bs
  | _, _ => false

end

end Expr

end ColumnRules
