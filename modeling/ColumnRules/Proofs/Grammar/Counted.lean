import ColumnRules.Phrase.Reader

/-!
# The grammar on shared counters

The grammar once more, on counters that all readings of a text share: how many tokens are taken,
and how many nested readings are under way. Whoever starts a nested reading counts up before it
and down after it. Nothing but the counters bounds the recursion, so it is not plain from its form
that every reading ends, nor that a reading finds the depth again at which it began. Each reading is
therefore given a number of calls that may be open inside one another, and it has no outcome where
they do not suffice.
-/

set_option autoImplicit false

namespace ColumnRules

open Phrase

/-- What all readings of a text share. -/
structure Counters where
  position : Nat
  depth : Nat
  /-- The greatest depth at which a reading began. It is watched only, nothing depends on it. -/
  deepest : Nat

namespace Counters

def entered (s : Counters) : Counters := { s with deepest := max s.deepest s.depth }

def advanced (s : Counters) : Counters := { s with position := s.position + 1 }

def deeper (s : Counters) : Counters := { s with depth := s.depth + 1 }

def shallower (s : Counters) : Counters := { s with depth := s.depth - 1 }

end Counters

/-- A reading that keeps the counters, also when it fails. -/
abbrev Counted (α : Type) := ExceptT ParseError (StateT Counters Option) α

namespace Counted

variable {α : Type}

/-- What a reading comes to that has no call left. -/
def never : Counted α := (fun _ => none : StateT Counters Option (Except ParseError α))

def enter : Counted Unit := modify Counters.entered

def advance : Counted Unit := modify Counters.advanced

/-- A nested reading. There is no way back from a depth that is not allowed. -/
abbrev descend (reading : Counted α) : Counted α :=
  (do
    modify Counters.deeper
    if maxNesting < (← get).depth then return .error tooDeep
    else
      let result ← reading.run
      modify Counters.shallower
      return result : StateT Counters Option (Except ParseError α))

def ofNode : Except ParseError Node → Counted Node
  | .error e => throw e
  | .ok node => return node

section Tokens

variable (tokens : List Lexeme)

def peek : Counted (Option Lexeme) := return tokens[(← get).position]?

/-- Takes the next token if it is the given one. -/
def take (token : Token) : Counted Bool := do
  match ← peek tokens with
  | none => return false
  | some l =>
    if l.token = token then
      advance
      return true
    else return false

/-- Takes the next token if it is an operator of the given class. -/
def takeSymbol? (accepts : Symbol → Bool) : Counted (Option Symbol) := do
  match ← peek tokens with
  | some ⟨.symbol op, _⟩ =>
    if accepts op then
      advance
      return some op
    else return none
  | _ => return none

def close (token : Token) : Counted Unit := do
  if ← take tokens token then return ()
  else throw (.malformed (.missing (.closing token) (← peek tokens)))

/-- The name of a property behind its dot. -/
def property : Counted Unit := do
  match ← peek tokens with
  | some ⟨.name _, _⟩ | some ⟨.column _, _⟩ => advance
  | found => throw (.malformed (.missing .property found))

mutual

def expression : Nat → Counted Node
  | 0 => never
  | calls + 1 => do
    enter
    assignment calls

def assignment : Nat → Counted Node
  | 0 => never
  | calls + 1 => do
    enter
    let target ← conditional calls
    match ← takeSymbol? tokens Symbol.isAssignment with
    | none => return target
    | some _ =>
      let _ ← descend (assignment calls)
      return .leaf (.foreign .assignment)

def conditional : Nat → Counted Node
  | 0 => never
  | calls + 1 => do
    enter
    let test ← binary calls 0
    match ← takeSymbol? tokens (· = .question) with
    | none => return test
    | some _ =>
      let _ ← descend (assignment calls)
      match ← takeSymbol? tokens (· = .colon) with
      | none => throw (.malformed (.missing .alternative (← peek tokens)))
      | some _ =>
        let _ ← descend (assignment calls)
        return .leaf (.foreign .conditional)

/-- An operand and the operators behind it that bind at least as tightly as `floor`. -/
def binary : Nat → Nat → Counted Node
  | 0, _ => never
  | calls + 1, floor => do
    enter
    let left ← unary calls
    chain calls floor left

/-- The loop over the operators behind what stands on the left. -/
def chain : Nat → Nat → Node → Counted Node
  | 0, _, _ => never
  | calls + 1, floor, left => do
    match ← peek tokens with
    | some ⟨.symbol op, _⟩ =>
      match op.precedence? with
      | none => return left
      | some level =>
        if level < floor then return left
        else
          advance
          let right ← descend (binary calls (if op = .power then level else level + 1))
          let node ← ofNode (Node.branch (join op left.phrase right.phrase)
            (max left.height right.height))
          chain calls floor node
    | _ => return left

def unary : Nat → Counted Node
  | 0 => never
  | calls + 1 => do
    enter
    descend (operand calls)

def operand : Nat → Counted Node
  | 0 => never
  | calls + 1 => do
    enter
    match ← takeSymbol? tokens Symbol.isUnary with
    | some _ =>
      let _ ← unary calls
      return .leaf (.foreign .unary)
    | none =>
      match ← takeSymbol? tokens Symbol.isUpdate with
      | some _ =>
        let _ ← unary calls
        return .leaf (.foreign .update)
      | none => suffixed calls

def suffixed : Nat → Counted Node
  | 0 => never
  | calls + 1 => do
    enter
    let node ← primary calls
    suffixes calls node

/-- The loop over what stands behind an operand. -/
def suffixes : Nat → Node → Counted Node
  | 0, _ => never
  | calls + 1, node => do
    if ← take tokens .leftParen then
      arguments calls
      suffixes calls (.leaf (.foreign .call))
    else if ← take tokens .leftBracket then
      let _ ← expression calls
      close tokens .rightBracket
      suffixes calls (.leaf (.foreign .member))
    else if (← takeSymbol? tokens (· = .dot)).isSome then
      property tokens
      suffixes calls (.leaf (.foreign .member))
    else if (← takeSymbol? tokens Symbol.isUpdate).isSome then
      suffixes calls (.leaf (.foreign .update))
    else return node

/-- The arguments of a call behind its opening parenthesis. -/
def arguments : Nat → Counted Unit
  | 0 => never
  | calls + 1 => do
    enter
    if ← take tokens .rightParen then return ()
    else nextArguments calls

/-- The loop over the arguments, of which at least one follows. -/
def nextArguments : Nat → Counted Unit
  | 0 => never
  | calls + 1 => do
    let _ ← assignment calls
    if ← take tokens .comma then nextArguments calls
    else close tokens .rightParen

def primary : Nat → Counted Node
  | 0 => never
  | calls + 1 => do
    enter
    match ← peek tokens with
    | none => throw (.malformed .unexpectedEnd)
    | some l =>
      match l.token with
      | .number x =>
        advance
        return .leaf (.number x)
      | .column word =>
        advance
        return .leaf (.column word)
      | .name word =>
        advance
        return .leaf (.name word)
      | .quotation _ =>
        advance
        return .leaf (.foreign .quotation)
      | .leftParen =>
        advance
        let inside ← expression calls
        close tokens .rightParen
        return inside
      | .leftBracket =>
        advance
        array calls
      | _ => throw (.malformed (.unexpected l))

/-- A list behind its opening bracket. -/
def array : Nat → Counted Node
  | 0 => never
  | calls + 1 => do
    enter
    nextItems calls []

/-- The loop over the items, with those that are read already. -/
def nextItems : Nat → List Node → Counted Node
  | 0, _ => never
  | calls + 1, items => do
    if ← take tokens .rightBracket then ofNode (Node.ofList items)
    else
      let next ← peek tokens
      if next.map Lexeme.token = some .comma then throw (.malformed (.missing .item next))
      else
        let item ← assignment calls
        if ← take tokens .comma then nextItems calls (items ++ [item])
        else
          close tokens .rightBracket
          ofNode (Node.ofList (items ++ [item]))

end

end Tokens

end Counted

end ColumnRules
