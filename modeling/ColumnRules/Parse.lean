import ColumnRules.Expr.Basic
import ColumnRules.Phrase.Reader
import ColumnRules.Token.Lexer

/-!
# Parsing rule text

A phrase is an expression of the rule language when its names are columns, its operators compute,
compare or join, and no condition is compared. The first obstacle from the outside in and from
left to right is the one reported.
-/

set_option autoImplicit false

namespace ColumnRules

namespace Expr

mutual

def ofPhrase : Phrase → Except ParseError Expr
  | .number x => .ok (literal x)
  | .column word => .ok (var word)
  | .name word => .error (.unknownIdentifier word)
  | .list items =>
    match ofPhrases items with
    | .error e => .error e
    | .ok items => .ok (sequence items)
  | .binary op left right =>
    match op.binary? with
    | none => .error (.unsupportedOperator op)
    | some operator =>
      if operator.isComparison && (left.isCondition || right.isCondition) then
        .error .chainedComparison
      else
        match ofPhrase left with
        | .error e => .error e
        | .ok left =>
          match ofPhrase right with
          | .error e => .error e
          | .ok right => .ok (binary left operator right)
  | .logical op left right =>
    match op.logical? with
    | none => .error (.unsupportedOperator op)
    | some operator =>
      match ofPhrase left with
      | .error e => .error e
      | .ok left =>
        match ofPhrase right with
        | .error e => .error e
        | .ok right => .ok (logical operator [left, right])
  | .foreign construct => .error (.unknownNode construct)

def ofPhrases : List Phrase → Except ParseError (List Expr)
  | [] => .ok []
  | phrase :: phrases =>
    match ofPhrase phrase with
    | .error e => .error e
    | .ok e =>
      match ofPhrases phrases with
      | .error e => .error e
      | .ok es => .ok (e :: es)

end

end Expr

/-- The expression that a rule text writes over declared column names. -/
def parse (source : String) (columns : List String) : Except ParseError Expr :=
  match tokenize source columns with
  | .error e => .error e
  | .ok tokens =>
    match Phrase.ofTokens tokens with
    | .error e => .error e
    | .ok phrase => Expr.ofPhrase phrase

def isValid (source : String) (columns : List String) : Bool :=
  match parse source columns with
  | .ok _ => true
  | .error _ => false

end ColumnRules
