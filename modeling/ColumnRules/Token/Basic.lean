import ColumnRules.Number.Layout
import ColumnRules.Token.Symbol

/-!
# Tokens of rule text

A column is a declared name and may hold blanks; any other word is a plain name. A lexeme is a
token with the byte offset at which it starts.
-/

set_option autoImplicit false

namespace ColumnRules

inductive Token where
  | column (word : String)
  | name (word : String)
  | number (value : Binary64)
  | quotation (body : String)
  | symbol (op : Symbol)
  | leftParen
  | rightParen
  | leftBracket
  | rightBracket
  | comma
  | semicolon
  deriving DecidableEq

structure Lexeme where
  token : Token
  offset : Nat
  deriving DecidableEq

namespace Token

def ticked (text : String) : String := "`" ++ text ++ "`"

def describe : Token → String
  | column word => "column " ++ ticked word
  | name word => "identifier " ++ ticked word
  | number x => "number " ++ String.ofList x.plainText
  | quotation _ => "string literal"
  | symbol op => ticked op.text
  | leftParen => ticked "("
  | rightParen => ticked ")"
  | leftBracket => ticked "["
  | rightBracket => ticked "]"
  | comma => ticked ","
  | semicolon => ticked ";"

/-- The tokens that end an operand. A minus behind one of them is an operator, never a sign. -/
def endsOperand : Token → Bool
  | column _ | name _ | number _ | quotation _ | rightParen | rightBracket => true
  | _ => false

def ofPunctuation? : Char → Option Token
  | '(' => some leftParen
  | ')' => some rightParen
  | '[' => some leftBracket
  | ']' => some rightBracket
  | ',' => some comma
  | ';' => some semicolon
  | _ => none

end Token

def Lexeme.describe (l : Lexeme) : String :=
  l.token.describe ++ " at offset " ++ toString l.offset

end ColumnRules
