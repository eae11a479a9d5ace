import ColumnRules.Dictionary
import ColumnRules.Expr.Basic
import ColumnRules.Json.Printer

/-!
# Rule text of expressions

Every binary and logical node stands in parentheses; the items of a sequence are joined by `&&`,
in parentheses unless the sequence is the whole condition. Bound names show their values, unbound
names themselves.
-/

set_option autoImplicit false

namespace ColumnRules

namespace Json

/-- How a bound value is shown: strings verbatim, numbers as in rule text, all else as JSON. -/
def displayText : Json → List Char
  | string s => s.toList
  | int n => intText n
  | float x => x.ruleText
  | json => json.compactText

def display (json : Json) : String := String.ofList json.displayText

end Json

namespace Expr

/-- A bound name is replaced by its value, another one stands for itself. -/
def nameText (bindings : Bindings) (name : String) : List Char :=
  match bindings.get? name with
  | some value => value.displayText
  | none => name.toList

def subscriptText (bindings : Bindings) (base index : String) : List Char :=
  match bindings.get? index with
  | some value => value.displayText
  | none => base.toList ++ '[' :: (index.toList ++ [']'])

def spaced (symbol : String) : List Char := ' ' :: (symbol.toList ++ [' '])

mutual

def nestedText (bindings : Bindings) : Expr → List Char
  | literal x => x.ruleText
  | var name => nameText bindings name
  | subscript base index => subscriptText bindings base index
  | binary left op right =>
    '(' :: (left.nestedText bindings ++ (spaced op.symbol ++ (right.nestedText bindings ++ [')'])))
  | logical op operands => '(' :: (joinedText bindings op.surface operands ++ [')'])
  | sequence [] => ['[', ']']
  | sequence (item :: items) => '(' :: (joinedText bindings "&&" (item :: items) ++ [')'])

/-- The texts of several expressions with a symbol between each two. -/
def joinedText (bindings : Bindings) (symbol : String) : List Expr → List Char
  | [] => []
  | [e] => e.nestedText bindings
  | e :: es => e.nestedText bindings ++ (spaced symbol ++ joinedText bindings symbol es)

end

def ruleText (bindings : Bindings) : Expr → List Char
  | sequence items => joinedText bindings "&&" items
  | e => e.nestedText bindings

def render (e : Expr) (bindings : Bindings) : String := String.ofList (e.ruleText bindings)

end Expr

end ColumnRules
