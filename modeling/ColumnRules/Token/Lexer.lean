import ColumnRules.ParseError
import ColumnRules.Text.CharClass

/-!
# Cutting rule text into tokens

At every place that is not blank exactly one token is cut: a declared column if one stands there
between word boundaries, the longest of several; else a number, a name, a quotation or a symbol.
A minus directly in front of a number belongs to it where no operand has just ended.
-/

set_option autoImplicit false

namespace ColumnRules

namespace Lexer

/-- The name stands at the start of the text and no name character follows it. -/
def standsAt (s name : List Char) : Bool :=
  name.isPrefixOf s && !(s.drop name.length).head?.any isNameChar

/-- The longest of the names that stand at the start of the text. The empty name never counts. -/
def columnAt? (names : List (List Char)) (s : List Char) : Option (List Char) :=
  names.foldl (fun best name =>
    if standsAt s name && (best.getD []).length < name.length then some name else best) none

/-- A cut: the token at the start of the text, and how many characters behind the first it
takes. -/
structure Cut where
  token : Token
  extra : Nat
  deriving DecidableEq

def digitCount (s : List Char) : Nat := (s.takeWhile Char.isDigit).length

/-- How many characters a point and the digits behind it take; no digits, no fraction. -/
def fractionWidth : List Char → Nat
  | '.' :: s => if digitCount s = 0 then 0 else digitCount s + 1
  | _ => 0

/-- How many characters an exponent takes; without digits it is none. -/
def exponentWidth : List Char → Nat
  | mark :: s =>
    let signWidth := match s with
      | '+' :: _ | '-' :: _ => 1
      | _ => 0
    let digits := digitCount (s.drop signWidth)
    if (mark == 'e' || mark == 'E') && digits != 0 then 1 + signWidth + digits else 0
  | [] => 0

/-- How many characters a number without sign takes. -/
def numberWidth (s : List Char) : Nat :=
  let whole := digitCount s
  let fraction := fractionWidth (s.drop whole)
  whole + fraction + exponentWidth (s.drop (whole + fraction))

/-- A digit, or a point and a digit. -/
def startsNumber : List Char → Bool
  | '.' :: c :: _ => c.isDigit
  | c :: _ => c.isDigit
  | [] => false

/-- The number of that width at the start of the text. It must not overflow. -/
def numberCut (width : Nat) (s : List Char) : Except ParseError Cut :=
  match Binary64.ofText? (s.take width) with
  | some x =>
    if x.isFinite then .ok ⟨.number x, width - 1⟩
    else .error (.malformed (.badNumber (String.ofList (s.take width))))
  | none => .error (.malformed (.badNumber (String.ofList (s.take width))))

/-- How many characters come before the closing quote; a backslash guards the next one. -/
def quotedWidth? (quote : Char) : List Char → Option Nat
  | [] => none
  | c :: s =>
    if c == quote then some 0
    else if c == '\\' then
      match s with
      | _ :: s => (quotedWidth? quote s).map (· + 2)
      | [] => none
    else (quotedWidth? quote s).map (· + 1)

def quotationCut (quote : Char) (s : List Char) : Except ParseError Cut :=
  match quotedWidth? quote s with
  | some width => .ok ⟨.quotation (String.ofList (s.take width)), width + 1⟩
  | none => .error (.malformed .openQuotation)

def symbolCut (offset : Nat) (c : Char) (s : List Char) : Except ParseError Cut :=
  match Token.ofPunctuation? c with
  | some token => .ok ⟨token, 0⟩
  | none =>
    match Symbol.longest? (c :: s) with
    | some op => .ok ⟨.symbol op, op.text.toList.length - 1⟩
    | none => .error (.malformed (.badCharacter c offset))

/-- A place inside a word is no boundary. -/
def atBoundary (before : Option Char) : Bool := !before.any isNameChar

/-- An operand may start behind this token. -/
def expectsOperand (last : Option Token) : Bool := !last.any Token.endsOperand

def boundaryColumn? (names : List (List Char)) (before : Option Char) (s : List Char) :
    Option (List Char) :=
  if atBoundary before then columnAt? names s else none

/-- The token at `c :: s`, behind the character `before` and the token `last`. -/
def cutAt (names : List (List Char)) (before : Option Char) (last : Option Token) (offset : Nat)
    (c : Char) (s : List Char) : Except ParseError Cut :=
  match boundaryColumn? names before (c :: s) with
  | some name => .ok ⟨.column (String.ofList name), name.length - 1⟩
  | none =>
    if startsNumber (c :: s) then numberCut (numberWidth (c :: s)) (c :: s)
    else if c == '-' && expectsOperand last && startsNumber s then
      numberCut (numberWidth s + 1) (c :: s)
    else if isNameStart c then
      let extra := (s.takeWhile isNameChar).length
      .ok ⟨.name (String.ofList (c :: s.take extra)), extra⟩
    else if c == '\'' || c == '"' then quotationCut c s
    else symbolCut offset c s

/-- Walks over the text character by character. `inside` counts the characters that still belong
to the last token. -/
def scan (names : List (List Char)) :
    Nat → Option Char → Option Token → Nat → List Char → Except ParseError (List Lexeme)
  | _, _, _, _, [] => .ok []
  | inside + 1, _, last, offset, c :: s =>
    scan names inside (some c) last (offset + c.utf8Size) s
  | 0, before, last, offset, c :: s =>
    if isBlank c then scan names 0 (some c) last (offset + c.utf8Size) s
    else
      match cutAt names before last offset c s with
      | .error e => .error e
      | .ok cut =>
        match scan names cut.extra (some c) (some cut.token) (offset + c.utf8Size) s with
        | .error e => .error e
        | .ok lexemes => .ok (⟨cut.token, offset⟩ :: lexemes)

end Lexer

def tokenize (source : String) (columns : List String) : Except ParseError (List Lexeme) :=
  Lexer.scan (columns.map String.toList) 0 none none 0 source.toList

end ColumnRules
