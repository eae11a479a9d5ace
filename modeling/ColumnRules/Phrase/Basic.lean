import ColumnRules.ParseError

/-!
# Phrases

What the grammar recognises, wider than the rule language: any name, any binary operator, and
foreign constructs of which only the kind is kept.
-/

set_option autoImplicit false

namespace ColumnRules

inductive Phrase where
  | number (value : Binary64)
  | column (word : String)
  | name (word : String)
  | list (items : List Phrase)
  | binary (op : Symbol) (left right : Phrase)
  | logical (op : Symbol) (left right : Phrase)
  | foreign (construct : Construct)

namespace Phrase

def join (op : Symbol) (left right : Phrase) : Phrase :=
  if op.isLogical then logical op left right else binary op left right

/-- Phrases that yield a truth value: comparisons, joined conditions and lists. -/
def isCondition : Phrase → Bool
  | binary op _ _ => op.binary?.any BinaryOp.isComparison
  | logical op _ _ => op.logical?.isSome
  | list _ => true
  | _ => false

end Phrase

end ColumnRules
