import ColumnRules.Phrase.Basic

/-!
# Reading phrases from tokens

Operators are read by climbing their precedences. The room for nested readings is limited, and so
is the height of what is built: a chain of operators grows without nesting. The readers of one
level are built from those of the level inside it, so how deep a reading may go depends only on
where it starts.
-/

set_option autoImplicit false

namespace ColumnRules

namespace Phrase

/-- A reader answers what it read and the tokens behind it. -/
abbrev Reader (α : Type) := List Lexeme → Except ParseError (α × List Lexeme)

structure Node where
  phrase : Phrase
  height : Nat

def tooDeep : ParseError := .malformed .tooDeep

def Node.leaf (phrase : Phrase) : Node := ⟨phrase, 1⟩

/-- A phrase over parts of which the tallest has the given height. -/
def Node.branch (phrase : Phrase) (tallest : Nat) : Except ParseError Node :=
  if maxHeight < tallest + 1 then .error tooDeep else .ok ⟨phrase, tallest + 1⟩

/-- The height of a list. Read as one condition it is a chain, one level for every further item. -/
def Node.ofList (items : List Node) : Except ParseError Node :=
  branch (list (items.map Node.phrase)) (items.foldl (fun h n => max h n.height) 0 +
    (items.length - 1))

def expect (token : Token) : List Lexeme → Except ParseError (List Lexeme)
  | [] => .error (.malformed (.missing (.closing token) none))
  | l :: tokens =>
    if l.token = token then .ok tokens
    else .error (.malformed (.missing (.closing token) (some l)))

/-- The operator at the front, if it is of the given class. -/
def frontSymbol? (accepts : Symbol → Bool) : List Lexeme → Option (Symbol × List Lexeme)
  | ⟨.symbol op, _⟩ :: tokens => if accepts op then some (op, tokens) else none
  | _ => none

/-- Reads operators that bind at least as tightly as `floor`, each with its right operand. Every
round takes a token, so the number of tokens bounds the rounds. -/
def climb (right : Nat → Reader Node) (floor : Nat) : Nat → Node → Reader Node
  | 0, left, tokens => .ok (left, tokens)
  | rounds + 1, left, tokens =>
    match tokens with
    | ⟨.symbol op, _⟩ :: rest =>
      match op.precedence? with
      | some level =>
        if level < floor then .ok (left, tokens)
        else
          match right (if op = .power then level else level + 1) rest with
          | .error e => .error e
          | .ok (operand, rest) =>
            match Node.branch (join op left.phrase operand.phrase)
                (max left.height operand.height) with
            | .error e => .error e
            | .ok node => climb right floor rounds node rest
      | none => .ok (left, tokens)
    | _ => .ok (left, tokens)

/-- The readers available to the constructs of one level. -/
structure Readers where
  /-- An operand with the operators in front of it and behind it. -/
  operand : Reader Node
  /-- A chain of operators that bind at least as tightly as a precedence. -/
  binary : Nat → Reader Node
  /-- A whole expression. -/
  assignment : Reader Node

/-- The level at which nothing can be read any more. -/
def Readers.closed : Readers where
  operand := fun _ => .error tooDeep
  binary := fun _ _ => .error tooDeep
  assignment := fun _ => .error tooDeep

def readBinary (inner : Readers) (floor : Nat) : Reader Node := fun tokens =>
  match inner.operand tokens with
  | .error e => .error e
  | .ok (left, rest) => climb inner.binary floor rest.length left rest

def readConditional (inner : Readers) : Reader Node := fun tokens =>
  match readBinary inner 0 tokens with
  | .error e => .error e
  | .ok (test, rest) =>
    match frontSymbol? (· = .question) rest with
    | none => .ok (test, rest)
    | some (_, rest) =>
      match inner.assignment rest with
      | .error e => .error e
      | .ok (_, rest) =>
        match frontSymbol? (· = .colon) rest with
        | none => .error (.malformed (.missing .alternative rest.head?))
        | some (_, rest) =>
          match inner.assignment rest with
          | .error e => .error e
          | .ok (_, rest) => .ok (.leaf (.foreign .conditional), rest)

def readAssignment (inner : Readers) : Reader Node := fun tokens =>
  match readConditional inner tokens with
  | .error e => .error e
  | .ok (target, rest) =>
    match frontSymbol? Symbol.isAssignment rest with
    | none => .ok (target, rest)
    | some (_, rest) =>
      match inner.assignment rest with
      | .error e => .error e
      | .ok (_, rest) => .ok (.leaf (.foreign .assignment), rest)

/-- The items of a list behind its opening bracket; a comma may follow the last. -/
def readItems (expression : Reader Node) : Nat → Reader (List Node)
  | 0, _ => .error (.malformed .unexpectedEnd)
  | rounds + 1, tokens =>
    match tokens with
    | ⟨.rightBracket, _⟩ :: rest => .ok ([], rest)
    | ⟨.comma, offset⟩ :: _ => .error (.malformed (.missing .item (some ⟨.comma, offset⟩)))
    | _ =>
      match expression tokens with
      | .error e => .error e
      | .ok (item, ⟨.comma, _⟩ :: rest) =>
        match readItems expression rounds rest with
        | .error e => .error e
        | .ok (items, rest) => .ok (item :: items, rest)
      | .ok (item, rest) =>
        match expect .rightBracket rest with
        | .error e => .error e
        | .ok rest => .ok ([item], rest)

def readPrimary (expression : Reader Node) : Reader Node
  | [] => .error (.malformed .unexpectedEnd)
  | l :: rest =>
    match l.token with
    | .number x => .ok (.leaf (.number x), rest)
    | .column word => .ok (.leaf (.column word), rest)
    | .name word => .ok (.leaf (.name word), rest)
    | .quotation _ => .ok (.leaf (.foreign .quotation), rest)
    | .leftParen =>
      match expression rest with
      | .error e => .error e
      | .ok (inside, rest) =>
        match expect .rightParen rest with
        | .error e => .error e
        | .ok rest => .ok (inside, rest)
    | .leftBracket =>
      match readItems expression (rest.length + 1) rest with
      | .error e => .error e
      | .ok (items, rest) =>
        match Node.ofList items with
        | .error e => .error e
        | .ok node => .ok (node, rest)
    | _ => .error (.malformed (.unexpected l))

/-- The arguments of a call behind the first opening parenthesis; at least one. -/
def readArguments (expression : Reader Node) : Nat → List Lexeme → Except ParseError (List Lexeme)
  | 0, _ => .error (.malformed .unexpectedEnd)
  | rounds + 1, tokens =>
    match expression tokens with
    | .error e => .error e
    | .ok (_, ⟨.comma, _⟩ :: rest) => readArguments expression rounds rest
    | .ok (_, rest) => expect .rightParen rest

/-- Calls, subscripts, properties and updates behind an operand. -/
def readSuffixes (expression : Reader Node) : Nat → Node → Reader Node
  | 0, node, tokens => .ok (node, tokens)
  | rounds + 1, node, tokens =>
    match tokens with
    | ⟨.leftParen, _⟩ :: ⟨.rightParen, _⟩ :: rest =>
      readSuffixes expression rounds (.leaf (.foreign .call)) rest
    | ⟨.leftParen, _⟩ :: rest =>
      match readArguments expression (rest.length + 1) rest with
      | .error e => .error e
      | .ok rest => readSuffixes expression rounds (.leaf (.foreign .call)) rest
    | ⟨.leftBracket, _⟩ :: rest =>
      match expression rest with
      | .error e => .error e
      | .ok (_, rest) =>
        match expect .rightBracket rest with
        | .error e => .error e
        | .ok rest => readSuffixes expression rounds (.leaf (.foreign .member)) rest
    | ⟨.symbol .dot, _⟩ :: ⟨.name _, _⟩ :: rest =>
      readSuffixes expression rounds (.leaf (.foreign .member)) rest
    | ⟨.symbol .dot, _⟩ :: ⟨.column _, _⟩ :: rest =>
      readSuffixes expression rounds (.leaf (.foreign .member)) rest
    | ⟨.symbol .dot, _⟩ :: rest => .error (.malformed (.missing .property rest.head?))
    | ⟨.symbol .increment, _⟩ :: rest =>
      readSuffixes expression rounds (.leaf (.foreign .update)) rest
    | ⟨.symbol .decrement, _⟩ :: rest =>
      readSuffixes expression rounds (.leaf (.foreign .update)) rest
    | _ => .ok (node, tokens)

def readPostfix (expression : Reader Node) : Reader Node := fun tokens =>
  match readPrimary expression tokens with
  | .error e => .error e
  | .ok (node, rest) => readSuffixes expression rest.length node rest

def readOperand (inner : Readers) : Reader Node := fun tokens =>
  match frontSymbol? (fun op => op.isUnary || op.isUpdate) tokens with
  | none => readPostfix (readAssignment inner) tokens
  | some (op, rest) =>
    match inner.operand rest with
    | .error e => .error e
    | .ok (_, rest) =>
      .ok (.leaf (.foreign (if op.isUpdate then .update else .unary)), rest)

def Readers.around (inner : Readers) : Readers where
  operand := readOperand inner
  binary := readBinary inner
  assignment := readAssignment inner

/-- The readers with room for that many nested readings, the outermost included. -/
def Readers.within : Nat → Readers
  | 0 => closed
  | room + 1 => (within room).around

/-- Rendered text puts every node in parentheses, so reading a tree of a height back nests twice
as deep. -/
def maxNesting : Nat := 2 * maxHeight

/-- The names that start a statement of another kind. -/
def statementWords : List String :=
  ["let", "const", "var", "function", "class", "if", "for", "while", "return"]

def skipSemicolon : List Lexeme → List Lexeme
  | ⟨.semicolon, _⟩ :: rest => rest
  | tokens => tokens

def startsStatement? : List Lexeme → Option String
  | ⟨.name word, _⟩ :: _ => if statementWords.contains word then some word else none
  | _ => none

/-- The one expression that all tokens make up, with an optional semicolon behind it. -/
def ofTokens (tokens : List Lexeme) : Except ParseError Phrase :=
  if tokens.isEmpty then .error (.malformed .empty)
  else
    match startsStatement? tokens with
    | some word => .error (.malformed (.statement word))
    | none =>
      match (Readers.within (maxNesting + 1)).assignment tokens with
      | .error e => .error e
      | .ok (node, rest) =>
        match skipSemicolon rest with
        | [] => .ok node.phrase
        | l :: _ => .error (.malformed (.unexpected l))

end Phrase

end ColumnRules
