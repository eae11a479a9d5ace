import ColumnRules.Token.Basic

/-!
# Why rule text is refused

Text may use a name that is no column, an operator or a construct outside the rule language, or
compare a condition. Everything else is a malformed statement, with its own list of causes.
-/

set_option autoImplicit false

namespace ColumnRules

/-- Constructs that are recognised only to be refused by name. -/
inductive Construct where
  | assignment
  | conditional
  | unary
  | update
  | call
  | member
  | quotation
  deriving DecidableEq

def Construct.label : Construct → String
  | assignment => "assignment expression"
  | conditional => "conditional expression"
  | unary => "unary expression"
  | update => "update expression"
  | call => "call expression"
  | member => "member expression"
  | quotation => "string literal"

/-- What a construct needs at a place where something else stands. -/
inductive Wanted where
  | closing (token : Token)
  | alternative
  | property
  | item
  deriving DecidableEq

def Wanted.message : Wanted → String
  | closing token => "expected " ++ token.describe
  | alternative => "expected `:` in conditional expression"
  | property => "expected property name after `.`"
  | item => "array holes are not supported"

def maxHeight : Nat := 128

inductive Malformation where
  | empty
  | statement (word : String)
  | unexpected (found : Lexeme)
  | unexpectedEnd
  | missing (wanted : Wanted) (found : Option Lexeme)
  | tooDeep
  | badNumber (text : String)
  | openQuotation
  | badCharacter (c : Char) (offset : Nat)
  deriving DecidableEq

def Malformation.message : Malformation → String
  | empty => "empty input"
  | statement word => Token.ticked word ++ " starts a statement, not an expression"
  | unexpected found => "unexpected " ++ found.describe
  | unexpectedEnd => "unexpected end of input"
  | missing wanted (some found) => wanted.message ++ ", found " ++ found.describe
  | missing wanted none => wanted.message ++ ", found end of input"
  | tooDeep => "expression nests deeper than " ++ toString maxHeight ++ " levels"
  | badNumber text => "invalid number literal '" ++ text ++ "'"
  | openQuotation => "unterminated string literal"
  | badCharacter c offset =>
    "unexpected character '" ++ String.singleton c ++ "' at offset " ++ toString offset

inductive ParseError where
  | unknownIdentifier (name : String)
  | unsupportedOperator (op : Symbol)
  | chainedComparison
  | unknownNode (construct : Construct)
  | malformed (cause : Malformation)
  deriving DecidableEq

def ParseError.message : ParseError → String
  | unknownIdentifier name => "unknown identifier: " ++ name
  | unsupportedOperator op => "unsupported operator: " ++ op.text
  | chainedComparison => "chained comparisons (like 'a <= x < b') are not supported"
  | unknownNode construct => "unknown node type: " ++ construct.label
  | malformed cause => "input is not a single expression statement: " ++ cause.message

end ColumnRules
