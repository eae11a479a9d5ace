import ColumnRules.Proofs.Grammar.Dispatch
import Mathlib.Data.Nat.Find

/-!
# What the room decides

A reader that is given more room answers what it answered before, unless it was refused for want of
room. So each reading of given tokens has a nesting of its own: with less room it is refused, and
from there on the room plays no part.
-/

set_option autoImplicit false

namespace ColumnRules

open Phrase

/-- With more room nothing changes but a refusal for want of room. -/
def Yields {α : Type} (x y : Except ParseError α) : Prop := x = .error tooDeep ∨ x = y

/-- The outer readers have more room. -/
structure Widens (inner outer : Readers) : Prop where
  operand : ∀ tokens, Yields (inner.operand tokens) (outer.operand tokens)
  binary : ∀ floor tokens, Yields (inner.binary floor tokens) (outer.binary floor tokens)
  assignment : ∀ tokens, Yields (inner.assignment tokens) (outer.assignment tokens)

theorem climb_yields {right right' : Nat → Reader Node}
    (hright : ∀ floor tokens, Yields (right floor tokens) (right' floor tokens))
    (floor rounds : Nat) (left : Node) (tokens : List Lexeme) :
    Yields (climb right floor rounds left tokens) (climb right' floor rounds left tokens) := by
  induction rounds generalizing left tokens with
  | zero => exact .inr rfl
  | succ rounds ih =>
    unfold climb
    split
    · split
      · split
        · exact .inr rfl
        rename_i op offset rest _ level _ _
        obtain h | h := hright (if op = .power then level else level + 1) rest <;> rw [h]
        · exact .inl rfl
        split
        · exact .inr rfl
        split
        · exact .inr rfl
        · exact ih _ _
      · exact .inr rfl
    · exact .inr rfl

section Expression

variable {expression expression' : Reader Node}
  (hexpression : ∀ tokens, Yields (expression tokens) (expression' tokens))
include hexpression

theorem readItems_yields (rounds : Nat) (tokens : List Lexeme) :
    Yields (readItems expression rounds tokens) (readItems expression' rounds tokens) := by
  induction rounds generalizing tokens with
  | zero => exact .inr rfl
  | succ rounds ih =>
    unfold readItems
    split
    · exact .inr rfl
    · exact .inr rfl
    obtain h | h := hexpression tokens <;> rw [h]
    · exact .inl rfl
    split
    · exact .inr rfl
    · rename_i item offset behind _
      obtain h' | h' := ih behind <;> rw [h']
      · exact .inl rfl
      · exact .inr rfl
    · exact .inr rfl

theorem readList_yields (tokens : List Lexeme) :
    Yields (readList expression tokens) (readList expression' tokens) := by
  unfold readList readListBehind
  obtain h | h := readItems_yields hexpression (tokens.length + 1) tokens <;> rw [h]
  · exact .inl rfl
  · exact .inr rfl

theorem readPrimary_yields (tokens : List Lexeme) :
    Yields (readPrimary expression tokens) (readPrimary expression' tokens) := by
  cases tokens with
  | nil => exact .inr rfl
  | cons l rest =>
    obtain ⟨token, offset⟩ := l
    cases token with
    | leftParen =>
      unfold readPrimary
      obtain h | h := hexpression rest <;> simp only [h]
      · exact .inl rfl
      · exact .inr rfl
    | leftBracket => exact readList_yields hexpression rest
    | _ => exact .inr rfl

theorem readArguments_yields (rounds : Nat) (tokens : List Lexeme) :
    Yields (readArguments expression rounds tokens) (readArguments expression' rounds tokens) := by
  induction rounds generalizing tokens with
  | zero => exact .inr rfl
  | succ rounds ih =>
    unfold readArguments
    obtain h | h := hexpression tokens <;> rw [h]
    · exact .inl rfl
    split
    · exact .inr rfl
    · exact ih _
    · exact .inr rfl

theorem readCall_yields (tokens : List Lexeme) :
    Yields (readCall expression tokens) (readCall expression' tokens) := by
  unfold readCall
  split
  · exact .inr rfl
  obtain h | h := readArguments_yields hexpression (tokens.length + 1) tokens <;> rw [h]
  · exact .inl rfl
  · exact .inr rfl

theorem readSuffixes_yields (rounds : Nat) (node : Node) (tokens : List Lexeme) :
    Yields (readSuffixes expression rounds node tokens)
      (readSuffixes expression' rounds node tokens) := by
  induction rounds generalizing node tokens with
  | zero => exact .inr rfl
  | succ rounds ih =>
    unfold readSuffixes
    -- The cases stand in the order of the reader. Only the arguments of a call and a subscript are
    -- nested.
    split
    · exact ih _ _
    · rename_i rest _
      obtain h | h := readArguments_yields hexpression (rest.length + 1) rest <;> rw [h]
      · exact .inl rfl
      split
      · exact .inr rfl
      · exact ih _ _
    · rename_i rest
      obtain h | h := hexpression rest <;> rw [h]
      · exact .inl rfl
      split
      · exact .inr rfl
      split
      · exact .inr rfl
      · exact ih _ _
    · exact ih _ _
    · exact ih _ _
    · exact .inr rfl
    · exact ih _ _
    · exact ih _ _
    · exact .inr rfl

theorem readPostfix_yields (tokens : List Lexeme) :
    Yields (readPostfix expression tokens) (readPostfix expression' tokens) := by
  unfold readPostfix
  obtain h | h := readPrimary_yields hexpression tokens <;> rw [h]
  · exact .inl rfl
  split
  · exact .inr rfl
  · exact readSuffixes_yields hexpression _ _ _

end Expression

section Readers

variable {inner outer : Readers} (hwidens : Widens inner outer)
include hwidens

theorem readBinary_yields (floor : Nat) (tokens : List Lexeme) :
    Yields (readBinary inner floor tokens) (readBinary outer floor tokens) := by
  unfold readBinary
  obtain h | h := hwidens.operand tokens <;> rw [h]
  · exact .inl rfl
  split
  · exact .inr rfl
  · exact climb_yields hwidens.binary _ _ _ _

theorem readConditional_yields (tokens : List Lexeme) :
    Yields (readConditional inner tokens) (readConditional outer tokens) := by
  unfold readConditional
  obtain htest | htest := readBinary_yields hwidens 0 tokens <;> rw [htest]
  · exact .inl rfl
  split
  · exact .inr rfl
  split
  · exact .inr rfl
  rename_i behindTest _
  obtain hconsequent | hconsequent := hwidens.assignment behindTest <;> rw [hconsequent]
  · exact .inl rfl
  split
  · exact .inr rfl
  split
  · exact .inr rfl
  rename_i behindConsequent _
  obtain halternative | halternative := hwidens.assignment behindConsequent <;> rw [halternative]
  · exact .inl rfl
  · exact .inr rfl

theorem readAssignment_yields (tokens : List Lexeme) :
    Yields (readAssignment inner tokens) (readAssignment outer tokens) := by
  unfold readAssignment
  obtain htarget | htarget := readConditional_yields hwidens tokens <;> rw [htarget]
  · exact .inl rfl
  split
  · exact .inr rfl
  split
  · exact .inr rfl
  rename_i behindTarget _
  obtain hvalue | hvalue := hwidens.assignment behindTarget <;> rw [hvalue]
  · exact .inl rfl
  · exact .inr rfl

theorem readOperand_yields (tokens : List Lexeme) :
    Yields (readOperand inner tokens) (readOperand outer tokens) := by
  unfold readOperand
  split
  · exact readPostfix_yields (readAssignment_yields hwidens) tokens
  rename_i op rest _
  obtain h | h := hwidens.operand rest <;> rw [h]
  · exact .inl rfl
  · exact .inr rfl

theorem Widens.around : Widens inner.around outer.around where
  operand := readOperand_yields hwidens
  binary := readBinary_yields hwidens
  assignment := readAssignment_yields hwidens

end Readers

theorem widens_within (room : Nat) : Widens (Readers.within room) (Readers.within (room + 1)) := by
  induction room with
  | zero =>
    constructor
    · exact fun _ => .inl rfl
    · exact fun _ _ => .inl rfl
    · exact fun _ => .inl rfl
  | succ room ih => exact ih.around

/-- What more room does not change, once it is not refused, is decided at one room. -/
theorem exists_nesting {α : Type} {x : Nat → Except ParseError α}
    (h : ∀ room, Yields (x room) (x (room + 1))) :
    ∃ nesting answer, ∀ room, x room = if room < nesting then .error tooDeep else answer := by
  classical
  by_cases hopen : ∃ room, x room ≠ .error tooDeep
  · refine ⟨Nat.find hopen, x (Nat.find hopen), ?_⟩
    intro room
    split
    · exact not_not.mp (Nat.find_min hopen ‹_›)
    · induction room, Nat.le_of_not_lt ‹_› using Nat.le_induction with
      | base => rfl
      | succ room hle ih =>
        have hroom := ih (Nat.not_lt.mpr hle)
        obtain hdeep | hsame := h room
        · exact absurd (hroom.symm.trans hdeep) (Nat.find_spec hopen)
        · exact hsame.symm.trans hroom
  · refine ⟨0, .error tooDeep, ?_⟩
    intro room
    rw [ite_self]
    by_contra hroom
    exact hopen ⟨room, hroom⟩

/-- The readings of the grammar, each with the kind of what it answers. -/
inductive Reading : Type → Type where
  | expression : Reading Node
  | assignment : Reading Node
  | conditional : Reading Node
  | binary (floor : Nat) : Reading Node
  | unary : Reading Node
  /-- What may be nested in a unary reading. -/
  | operand : Reading Node
  | suffixed : Reading Node
  | primary : Reading Node
  /-- A list behind its opening bracket. -/
  | array : Reading Node
  /-- The arguments of a call behind the opening parenthesis. -/
  | arguments : Reading Unit

namespace Reading

variable {α : Type}

def read (inner : Readers) : Reading α → Reader α
  | expression => readAssignment inner
  | assignment => readAssignment inner
  | conditional => readConditional inner
  | binary floor => readBinary inner floor
  | unary => inner.operand
  | operand => readOperand inner
  | suffixed => readPostfix (readAssignment inner)
  | primary => readPrimary (readAssignment inner)
  | array => readList (readAssignment inner)
  | arguments => readCall (readAssignment inner)

theorem read_yields {inner outer : Readers} (h : Widens inner outer) (reading : Reading α)
    (tokens : List Lexeme) :
    Yields (reading.read inner tokens) (reading.read outer tokens) := by
  cases reading with
  | expression | assignment => exact readAssignment_yields h tokens
  | conditional => exact readConditional_yields h tokens
  | binary floor => exact readBinary_yields h floor tokens
  | unary => exact h.operand tokens
  | operand => exact readOperand_yields h tokens
  | suffixed => exact readPostfix_yields (readAssignment_yields h) tokens
  | primary => exact readPrimary_yields (readAssignment_yields h) tokens
  | array => exact readList_yields (readAssignment_yields h) tokens
  | arguments => exact readCall_yields (readAssignment_yields h) tokens

end Reading

end ColumnRules
