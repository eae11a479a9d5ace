import ColumnRules.Proofs.Grammar.Soundness
import Mathlib.Data.List.Chain

/-!
# What every reading takes

The grammar reads more than the rule language, and every reading keeps two things: its names are
among the tokens it took, and none of these is a single operand directly behind the end of
another one. A reading that fails finds a malformed statement, never a fault of the rule language.
-/

set_option autoImplicit false

namespace ColumnRules

open Phrase

namespace Token

/-- The tokens that are operands by themselves. -/
def isOperand : Token → Bool
  | column _ | name _ | number _ | quotation _ => true
  | _ => false

/-- The second token may stand directly behind the first, be it in a foreign construct. -/
def Apart (t u : Token) : Prop := t.endsOperand = true → u.isOperand = false

theorem endsOperand_of_isOperand {t : Token} (h : t.isOperand = true) : t.endsOperand = true := by
  cases t with
  | column | name | number | quotation => rfl
  | _ => cases h

end Token

mutual

/-- The names of a phrase that are no columns. What a foreign construct holds is not kept. -/
def Phrase.names : Phrase → List String
  | .name word => [word]
  | .list items => namesOf items
  | .binary _ left right | .logical _ left right => left.names ++ right.names
  | .number _ | .column _ | .foreign _ => []

def Phrase.namesOf : List Phrase → List String
  | [] => []
  | item :: items => item.names ++ namesOf items

end

theorem Phrase.names_join (op : Symbol) (left right : Phrase) :
    (join op left right).names = left.names ++ right.names := by
  unfold join
  split <;> rw [names]

/-- The tokens in front of `rest` hold the names and keep their operands apart. -/
def Covers (tokens rest : List Lexeme) (names : List String) : Prop :=
  ∃ used, tokens = used ++ rest ∧ (used.map Lexeme.token).IsChain Token.Apart ∧
    ∀ word ∈ names, .name word ∈ used.map Lexeme.token

namespace Covers

variable {tokens rest rest' : List Lexeme} {names names' : List String} {l : Lexeme}

theorem single (rest : List Lexeme) (h : ∀ word ∈ names, l.token = .name word) :
    Covers (l :: rest) rest names :=
  ⟨[l], rfl, .singleton _, fun word hword => List.mem_singleton.mpr (h word hword).symm⟩

theorem bare (l : Lexeme) (rest : List Lexeme) : Covers (l :: rest) rest [] :=
  single rest (List.forall_mem_nil _)

theorem opening (hl : l.token.endsOperand = false) (h : Covers tokens rest names) :
    Covers (l :: tokens) rest names := by
  obtain ⟨used, rfl, hapart, hnames⟩ := h
  refine ⟨l :: used, rfl, ?_, fun word hword => List.mem_cons_of_mem _ (hnames word hword)⟩
  rw [List.map_cons, List.isChain_cons]
  refine ⟨?_, hapart⟩
  intro u _ hends
  rw [hl] at hends
  cases hends

theorem append (h : Covers tokens rest names) (h' : Covers rest rest' names')
    (hjoin : ∀ l ∈ rest.head?, l.token.isOperand = false) :
    Covers tokens rest' (names ++ names') := by
  obtain ⟨used, rfl, hapart, hnames⟩ := h
  obtain ⟨used', rfl, hapart', hnames'⟩ := h'
  refine ⟨used ++ used', (List.append_assoc ..).symm, ?_, ?_⟩
  · rw [List.map_append, List.isChain_append]
    refine ⟨hapart, hapart', ?_⟩
    intro t _ u hu _
    rw [List.head?_map] at hu
    obtain ⟨l, hl, rfl⟩ := Option.map_eq_some_iff.mp hu
    exact hjoin l (by rw [List.head?_append, hl]; rfl)
  · rw [List.map_append]
    intro word hword
    rcases List.mem_append.mp hword with hword | hword
    · exact List.mem_append_left _ (hnames word hword)
    · exact List.mem_append_right _ (hnames' word hword)

theorem closing (h : Covers tokens (l :: rest) names) (hl : l.token.isOperand = false) :
    Covers tokens rest names := by
  rw [← List.append_nil names]
  refine h.append (bare l rest) ?_
  intro _ hhead
  cases hhead
  exact hl

/-- A token between two readings that neither ends nor is an operand. -/
theorem through (h : Covers tokens (l :: rest) names) (hl : l.token.endsOperand = false)
    (h' : Covers rest rest' names') : Covers tokens rest' (names ++ names') := by
  refine h.append (h'.opening hl) ?_
  intro _ hhead
  cases hhead
  apply Bool.eq_false_iff.mpr
  intro hoperand
  rw [Token.endsOperand_of_isOperand hoperand] at hl
  cases hl

theorem forget (h : Covers tokens rest names) : Covers tokens rest [] := by
  obtain ⟨used, rfl, hapart, -⟩ := h
  exact ⟨used, rfl, hapart, List.forall_mem_nil _⟩

end Covers

/-- An answer has the property, and a refusal is a malformed statement. -/
def Answers {α : Type} (P : α → Prop) : Except ParseError α → Prop
  | .ok a => P a
  | .error e => ∃ cause, e = .malformed cause

namespace Answers

variable {α : Type} {P Q : α → Prop} {x : Except ParseError α}

theorem ok {a : α} (h : Answers P x) (hx : x = .ok a) : P a := by
  rw [hx] at h
  exact h

theorem malformed {e : ParseError} (h : Answers P x) (hx : x = .error e) :
    ∃ cause, e = .malformed cause := by
  rw [hx] at h
  exact h

theorem imp (h : Answers P x) (hQ : ∀ a, P a → Q a) : Answers Q x := by
  cases x with
  | ok a => exact hQ a h
  | error e => exact h

end Answers

def CoveringReader (read : Reader Node) : Prop :=
  ∀ tokens, Answers (fun answer => Covers tokens answer.2 answer.1.phrase.names) (read tokens)

structure CoveringReaders (readers : Readers) : Prop where
  operand : CoveringReader readers.operand
  binary : ∀ floor, CoveringReader (readers.binary floor)
  assignment : CoveringReader readers.assignment

theorem branch_answers (phrase : Phrase) (tallest : Nat) :
    Answers (fun node => node.phrase = phrase) (Node.branch phrase tallest) := by
  unfold Node.branch
  split
  · exact ⟨_, rfl⟩
  · exact rfl

theorem expect_answers (token : Token) (tokens : List Lexeme) :
    Answers (fun rest => ∃ offset, tokens = ⟨token, offset⟩ :: rest) (expect token tokens) := by
  cases h : expect token tokens with
  | ok rest => exact expect_ok h
  | error e =>
    unfold expect at h
    split at h
    · cases h
      exact ⟨_, rfl⟩
    split at h <;> cases h
    exact ⟨_, rfl⟩

theorem frontSymbol?_eq_some {accepts : Symbol → Bool} {tokens rest : List Lexeme} {op : Symbol}
    (h : frontSymbol? accepts tokens = some (op, rest)) :
    ∃ offset, tokens = ⟨.symbol op, offset⟩ :: rest := by
  unfold frontSymbol? at h
  split at h
  · split at h <;> cases h
    exact ⟨_, rfl⟩
  · cases h

/-- From round to round, what stands on the left covers all tokens from `start` on. -/
theorem climb_answers {right : Nat → Reader Node} (hright : ∀ floor, CoveringReader (right floor))
    {floor rounds : Nat} {left : Node} {start tokens : List Lexeme}
    (hleft : Covers start tokens left.phrase.names) :
    Answers (fun answer => Covers start answer.2 answer.1.phrase.names)
      (climb right floor rounds left tokens) := by
  induction rounds generalizing left tokens with
  | zero => exact hleft
  | succ rounds ih =>
    unfold climb
    split
    · split
      · split
        · exact hleft
        split
        · exact (hright _ _).malformed ‹_›
        rename_i operand behind hoperand
        split
        · exact (branch_answers _ _).malformed ‹_›
        rename_i node hnode
        apply ih
        rw [(branch_answers _ _).ok hnode, names_join]
        exact hleft.through rfl ((hright _ _).ok hoperand)
      · exact hleft
    · exact hleft

section Expression

variable {expression : Reader Node} (hexpression : CoveringReader expression)
include hexpression

theorem readItems_answers (rounds : Nat) (tokens : List Lexeme) :
    Answers (fun answer => Covers tokens answer.2 (namesOf (answer.1.map Node.phrase)))
      (readItems expression rounds tokens) := by
  induction rounds generalizing tokens with
  | zero => exact ⟨_, rfl⟩
  | succ rounds ih =>
    unfold readItems
    split
    · exact .bare _ _
    · exact ⟨_, rfl⟩
    split
    · exact (hexpression _).malformed ‹_›
    · rename_i item offset behind hitem
      split
      · exact (ih _).malformed ‹_›
      · rename_i items rest hitems
        exact ((hexpression _).ok hitem).through rfl ((ih _).ok hitems)
    · rename_i item behind _ hitem
      split
      · exact (expect_answers _ _).malformed ‹_›
      · rename_i rest hclose
        obtain ⟨offset, rfl⟩ := (expect_answers _ _).ok hclose
        have hitem' := ((hexpression _).ok hitem).closing rfl
        rw [← List.append_nil item.phrase.names] at hitem'
        exact hitem'

theorem CoveringReader.readPrimary : CoveringReader (readPrimary expression) := by
  intro tokens
  cases tokens with
  | nil => exact ⟨_, rfl⟩
  | cons l rest =>
    obtain ⟨token, offset⟩ := l
    cases token with
    | number | column | quotation => exact .bare _ _
    | name word =>
      apply Covers.single
      intro _ hword
      rw [List.mem_singleton.mp hword]
    | leftParen =>
      simp only [Phrase.readPrimary]
      split
      · exact (hexpression _).malformed ‹_›
      rename_i inside behind hinside
      split
      · exact (expect_answers _ _).malformed ‹_›
      rename_i rest' hclose
      obtain ⟨offset', rfl⟩ := (expect_answers _ _).ok hclose
      exact (((hexpression _).ok hinside).closing rfl).opening rfl
    | leftBracket =>
      simp only [Phrase.readPrimary]
      split
      · exact (readItems_answers hexpression _ _).malformed ‹_›
      rename_i items behind hitems
      split
      · exact (branch_answers _ _).malformed ‹_›
      rename_i node hnode
      have hphrase : node.phrase = .list (items.map Node.phrase) := (branch_answers _ _).ok hnode
      have hnames : node.phrase.names = namesOf (items.map Node.phrase) := by
        rw [hphrase, Phrase.names]
      have hitems' := (readItems_answers hexpression _ _).ok hitems
      rw [← hnames] at hitems'
      exact hitems'.opening rfl
    | symbol | rightParen | rightBracket | comma | semicolon => exact ⟨_, rfl⟩

theorem readArguments_answers (rounds : Nat) (tokens : List Lexeme) :
    Answers (fun rest => Covers tokens rest []) (readArguments expression rounds tokens) := by
  induction rounds generalizing tokens with
  | zero => exact ⟨_, rfl⟩
  | succ rounds ih =>
    unfold readArguments
    split
    · exact (hexpression _).malformed ‹_›
    · rename_i argument offset behind hargument
      apply (ih _).imp
      intro rest hrest
      exact (((hexpression _).ok hargument).through rfl hrest).forget
    · rename_i argument behind _ hargument
      apply (expect_answers _ _).imp
      rintro rest ⟨offset, rfl⟩
      exact (((hexpression _).ok hargument).closing rfl).forget

theorem readSuffixes_answers {rounds : Nat} {node : Node} {start tokens : List Lexeme}
    (hnode : Covers start tokens node.phrase.names) :
    Answers (fun answer => Covers start answer.2 answer.1.phrase.names)
      (readSuffixes expression rounds node tokens) := by
  induction rounds generalizing node tokens with
  | zero => exact hnode
  | succ rounds ih =>
    unfold readSuffixes
    -- The cases stand in the order of the reader: two for a call, one for a subscript, three for a
    -- property, two for an update, and the end. Every suffix leaves a foreign phrase without names.
    split
    · exact ih (hnode.through rfl (.bare _ _)).forget
    · split
      · exact (readArguments_answers hexpression _ _).malformed ‹_›
      · exact ih (hnode.through rfl ((readArguments_answers hexpression _ _).ok ‹_›)).forget
    · split
      · exact (hexpression _).malformed ‹_›
      rename_i index behind hindex
      split
      · exact (expect_answers _ _).malformed ‹_›
      rename_i rest hclose
      obtain ⟨offset, rfl⟩ := (expect_answers _ _).ok hclose
      exact ih ((hnode.through rfl ((hexpression _).ok hindex)).closing rfl).forget
    · exact ih (hnode.through rfl (.bare _ _)).forget
    · exact ih (hnode.through rfl (.bare _ _)).forget
    · exact ⟨_, rfl⟩
    · exact ih (hnode.closing rfl).forget
    · exact ih (hnode.closing rfl).forget
    · exact hnode

theorem CoveringReader.suffixed : CoveringReader (readPostfix expression) := by
  intro tokens
  unfold readPostfix
  split
  · exact (hexpression.readPrimary _).malformed ‹_›
  · rename_i node rest hnode
    exact readSuffixes_answers hexpression ((hexpression.readPrimary _).ok hnode)

end Expression

section Readers

variable {readers : Readers} (hreaders : CoveringReaders readers)
include hreaders

theorem CoveringReaders.readBinary (floor : Nat) : CoveringReader (readBinary readers floor) := by
  intro tokens
  unfold Phrase.readBinary
  split
  · exact (hreaders.operand _).malformed ‹_›
  · rename_i left rest hleft
    exact climb_answers hreaders.binary ((hreaders.operand _).ok hleft)

theorem CoveringReaders.readConditional : CoveringReader (readConditional readers) := by
  intro tokens
  unfold Phrase.readConditional
  split
  · exact (hreaders.readBinary _ _).malformed ‹_›
  rename_i test behind htest
  have htest' := (hreaders.readBinary _ _).ok htest
  split
  · exact htest'
  rename_i op afterTest hquestion
  obtain ⟨offset, rfl⟩ := frontSymbol?_eq_some hquestion
  split
  · exact (hreaders.assignment _).malformed ‹_›
  rename_i consequent afterConsequent hconsequent
  have hconsequent' := htest'.through rfl ((hreaders.assignment _).ok hconsequent)
  split
  · exact ⟨_, rfl⟩
  rename_i op' afterColon hcolon
  obtain ⟨offset', rfl⟩ := frontSymbol?_eq_some hcolon
  split
  · exact (hreaders.assignment _).malformed ‹_›
  rename_i alternative rest halternative
  exact (hconsequent'.through rfl ((hreaders.assignment _).ok halternative)).forget

theorem CoveringReaders.readAssignment : CoveringReader (readAssignment readers) := by
  intro tokens
  unfold Phrase.readAssignment
  split
  · exact (hreaders.readConditional _).malformed ‹_›
  rename_i target behind htarget
  have htarget' := (hreaders.readConditional _).ok htarget
  split
  · exact htarget'
  rename_i op afterTarget hassign
  obtain ⟨offset, rfl⟩ := frontSymbol?_eq_some hassign
  split
  · exact (hreaders.assignment _).malformed ‹_›
  rename_i value rest hvalue
  exact (htarget'.through rfl ((hreaders.assignment _).ok hvalue)).forget

theorem CoveringReaders.readOperand : CoveringReader (readOperand readers) := by
  intro tokens
  unfold Phrase.readOperand
  split
  · exact hreaders.readAssignment.suffixed _
  rename_i op behind hfront
  obtain ⟨offset, rfl⟩ := frontSymbol?_eq_some hfront
  split
  · exact (hreaders.operand _).malformed ‹_›
  rename_i operand rest hoperand
  exact (((hreaders.operand _).ok hoperand).opening rfl).forget

theorem CoveringReaders.around : CoveringReaders readers.around where
  operand := hreaders.readOperand
  binary := hreaders.readBinary
  assignment := hreaders.readAssignment

end Readers

theorem CoveringReaders.within (room : Nat) : CoveringReaders (Readers.within room) := by
  induction room with
  | zero =>
    constructor
    · exact fun _ => ⟨_, rfl⟩
    · exact fun _ _ => ⟨_, rfl⟩
    · exact fun _ => ⟨_, rfl⟩
  | succ room ih => exact ih.around

end ColumnRules
