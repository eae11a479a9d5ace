import ColumnRules.Proofs.Grammar.Outcome
import ColumnRules.Proofs.Grammar.Room

/-!
# Readings find their depth again

On the shared counters a reading ends as the reader of the same name does, which is given its room
and the tokens in front of it. It has taken at least one token then, and the depth is what it was.
No more calls are open inside one another than six for every token and every level of nesting.
-/

set_option autoImplicit false

namespace ColumnRules

open Phrase

/-- No higher than allowed. -/
def Phrase.Node.IsBounded (node : Node) : Prop := node.height ≤ maxHeight

theorem Phrase.Node.isBounded_of_branch {phrase : Phrase} {tallest : Nat} {node : Node}
    (h : Node.branch phrase tallest = .ok node) : node.IsBounded := by
  obtain ⟨rfl, hheight⟩ := branch_ok h
  exact hheight

theorem Phrase.Node.isBounded_leaf (phrase : Phrase) : (Node.leaf phrase).IsBounded := by
  show 1 ≤ maxHeight
  decide

/-- Where that much room is left, nested readings end as the readers with that room. -/
structure Nests (tokens : List Lexeme) (room : Nat) : Prop where
  operand : ∀ {calls s rest}, s.Stands tokens room rest → 6 * (room + rest.length) ≤ calls →
    Ends Node.IsBounded tokens s ((Counted.descend (Counted.operand tokens calls)).outcome s)
      ((Readers.within room).operand rest)
  binary : ∀ floor {calls s rest}, s.Stands tokens room rest → 6 * (room + rest.length) ≤ calls →
    Ends Node.IsBounded tokens s ((Counted.descend (Counted.binary tokens calls floor)).outcome s)
      ((Readers.within room).binary floor rest)
  assignment : ∀ {calls s rest}, s.Stands tokens room rest → 6 * (room + rest.length) ≤ calls →
    Ends Node.IsBounded tokens s ((Counted.descend (Counted.assignment tokens calls)).outcome s)
      ((Readers.within room).assignment rest)

namespace Counted

theorem ofList_ends {tokens rest : List Lexeme} {s₀ s : Counters} (items : List Node)
    (hs : Passed tokens s₀ s rest) :
    Ends Node.IsBounded tokens s₀ ((ofNode (Node.ofList items)).outcome s)
      (match Node.ofList items with
      | .error e => .error e
      | .ok node => .ok (node, rest)) := by
  cases hnode : Node.ofList items with
  | error e => exact .refusal hs.deepest
  | ok node => exact .answer hs (Node.isBounded_of_branch hnode)

/-- What stands for a foreign construct keeps nothing of its parts. -/
theorem foreign_ends {P : Node → Prop} {tokens rest : List Lexeme} {s₀ s : Counters}
    {reading : Counted Node} {x : Except ParseError (Node × List Lexeme)} (construct : Construct)
    (hs : Reached tokens s₀ s rest) : Ends P tokens s (reading.outcome s) x →
    Ends Node.IsBounded tokens s₀
      ((do
        let _ ← reading
        return Node.leaf (.foreign construct) : Counted Node).outcome s)
      (match x with
      | .error e => .error e
      | .ok (_, rest) => .ok (.leaf (.foreign construct), rest)) := by
  refine .bind hs ?_
  intro part s' behind hpassed _
  exact .answer (hs.passed hpassed) (Node.isBounded_leaf _)

section Suffixes

variable {tokens rest : List Lexeme} {s : Counters} {node : Node}
  {calls offset : Nat} {op : Symbol}

theorem outcome_suffixes_call (hs : s.Faces tokens (⟨.leftParen, offset⟩ :: rest)) :
    (suffixes tokens (calls + 1) node).outcome s =
      (arguments tokens calls >>= fun _ => suffixes tokens calls (.leaf (.foreign .call))).outcome
        s.advanced := by
  rw [suffixes, outcome_take_cons hs, if_pos rfl]

theorem outcome_suffixes_subscript (hs : s.Faces tokens (⟨.leftBracket, offset⟩ :: rest)) :
    (suffixes tokens (calls + 1) node).outcome s =
      (do
        let _ ← expression tokens calls
        close tokens .rightBracket
        suffixes tokens calls (.leaf (.foreign .member)) : Counted Node).outcome s.advanced := by
  have hparen : (⟨.leftBracket, offset⟩ :: rest).head?.map Lexeme.token ≠ some .leftParen := by
    simp
  rw [suffixes, outcome_take_of_ne hs hparen, if_neg Bool.false_ne_true, outcome_take_cons hs,
    if_pos rfl]

/-- Neither a call nor a subscript stands in front. -/
theorem outcome_suffixes (hs : s.Faces tokens rest)
    (hparen : rest.head?.map Lexeme.token ≠ some .leftParen)
    (hbracket : rest.head?.map Lexeme.token ≠ some .leftBracket) :
    (suffixes tokens (calls + 1) node).outcome s =
      (do
        if (← takeSymbol? tokens (· = .dot)).isSome then
          property tokens
          suffixes tokens calls (.leaf (.foreign .member))
        else if (← takeSymbol? tokens Symbol.isUpdate).isSome then
          suffixes tokens calls (.leaf (.foreign .update))
        else return node : Counted Node).outcome s := by
  rw [suffixes, outcome_take_of_ne hs hparen, if_neg Bool.false_ne_true,
    outcome_take_of_ne hs hbracket, if_neg Bool.false_ne_true]

theorem outcome_suffixes_dot (hs : s.Faces tokens (⟨.symbol .dot, offset⟩ :: rest)) :
    (suffixes tokens (calls + 1) node).outcome s =
      (property tokens >>= fun _ => suffixes tokens calls (.leaf (.foreign .member))).outcome
        s.advanced := by
  rw [outcome_suffixes hs (by simp) (by simp), outcome_takeSymbol?_some hs rfl, Option.isSome_some,
    if_pos rfl]

theorem outcome_suffixes_update (hs : s.Faces tokens (⟨.symbol op, offset⟩ :: rest))
    (hdot : op ≠ .dot) (hop : op.isUpdate = true) :
    (suffixes tokens (calls + 1) node).outcome s =
      (suffixes tokens calls (.leaf (.foreign .update))).outcome s.advanced := by
  have hnodot : frontSymbol? (· = .dot) (⟨.symbol op, offset⟩ :: rest) = none := by
    simp [frontSymbol?, hdot]
  have hupdate : frontSymbol? Symbol.isUpdate (⟨.symbol op, offset⟩ :: rest) = some (op, rest) :=
    if_pos hop
  rw [outcome_suffixes hs (by simp) (by simp), outcome_takeSymbol?_none hs hnodot,
    Option.isSome_none, if_neg Bool.false_ne_true, outcome_takeSymbol?_some hs hupdate,
    Option.isSome_some, if_pos rfl]

theorem outcome_suffixes_none (hs : s.Faces tokens rest)
    (hparen : rest.head?.map Lexeme.token ≠ some .leftParen)
    (hbracket : rest.head?.map Lexeme.token ≠ some .leftBracket)
    (hdot : frontSymbol? (· = .dot) rest = none)
    (hupdate : frontSymbol? Symbol.isUpdate rest = none) :
    (suffixes tokens (calls + 1) node).outcome s = some (.ok node, s) := by
  rw [outcome_suffixes hs hparen hbracket, outcome_takeSymbol?_none hs hdot]
  exact outcome_takeSymbol?_none hs hupdate _

end Suffixes

theorem property_ends {tokens rest : List Lexeme} {s : Counters} (hs : s.Faces tokens rest) :
    Ends (fun _ => True) tokens s ((property tokens).outcome s) (readProperty rest) := by
  rw [property, outcome_peek_bind hs]
  cases rest with
  | nil => exact .refusal hs.reached.deepest
  | cons l behind =>
    obtain ⟨token, offset⟩ := l
    cases token with
    | name | column => exact .answer hs.reached.advance trivial
    | _ => exact .refusal hs.reached.deepest

/-- What takes calls has one to begin with. -/
theorem exists_call {need calls : Nat} (h : need + 1 ≤ calls) :
    ∃ fewer, calls = fewer + 1 ∧ need ≤ fewer := by
  obtain ⟨fewer, rfl⟩ := Nat.exists_eq_add_one.mpr (Nat.lt_of_lt_of_le (Nat.succ_pos _) h)
  exact ⟨fewer, rfl, Nat.le_of_succ_le_succ h⟩

section Room

-- No more than six calls are opened in a row without a token taken or a level entered: from a list
-- and its items over an assignment, a condition and a chain of operators to an operand.
variable {tokens : List Lexeme} {room : Nat} (hnests : Nests tokens room)
include hnests

theorem unary_ends {calls : Nat} {s : Counters} {rest : List Lexeme}
    (hs : s.Stands tokens room rest) (hcalls : 6 * (room + rest.length) + 1 ≤ calls) :
    Ends Node.IsBounded tokens s ((unary tokens calls).outcome s)
      ((Readers.within room).operand rest) := by
  obtain ⟨calls, rfl, hfewer⟩ := exists_call hcalls
  rw [unary]
  exact .enter hs.depth_le (hnests.operand hs.entered hfewer)

theorem chain_ends {calls floor rounds : Nat} {left : Node} {s₀ s : Counters}
    {rest rest₀ : List Lexeme} (hs₀ : s₀.Stands tokens room rest₀) (hs : Passed tokens s₀ s rest)
    (hleft : left.IsBounded) (hrounds : rest.length ≤ rounds)
    (hcalls : 6 * (room + rest.length) + 1 ≤ calls) :
    Ends Node.IsBounded tokens s₀ ((chain tokens calls floor left).outcome s)
      (climb (Readers.within room).binary floor rounds left rest) := by
  -- Every round takes a token, so the rounds of the reader never run out before the tokens do.
  induction rounds generalizing calls s left rest with
  | zero =>
    obtain ⟨calls, rfl, hfewer⟩ := exists_call hcalls
    obtain rfl := List.eq_nil_of_length_eq_zero (Nat.le_zero.mp hrounds)
    rw [chain, outcome_peek_bind hs.faces]
    exact .answer hs hleft
  | succ rounds ih =>
    obtain ⟨calls, rfl, hfewer⟩ := exists_call hcalls
    rw [chain, outcome_peek_bind hs.faces]
    cases rest with
    | nil => exact .answer hs hleft
    | cons l behind =>
      obtain ⟨token, offset⟩ := l
      rw [List.length_cons] at hrounds hfewer
      cases token with
      | symbol op =>
        simp only [List.head?_cons, climb]
        cases hlevel : op.precedence? with
        | none => exact .answer hs hleft
        | some level =>
          by_cases hlt : level < floor
          · simp only [if_pos hlt]
            exact .answer hs hleft
          simp only [if_neg hlt]
          rw [outcome_advance_bind]
          have hpast := hs.advance
          have hnested : 6 * (room + behind.length) ≤ calls := by omega
          have hright := hnests.binary (if op = .power then level else level + 1)
            (hpast.stands hs₀) hnested
          refine .bind hpast.toReached ?_ hright
          intro right s' rest' hpassed _
          have hlength := hpassed.length_lt hpast.faces
          cases hnode : Node.branch (join op left.phrase right.phrase)
              (max left.height right.height) with
          | error e => exact .refusal (hpast.trans hpassed.toReached).deepest
          | ok node =>
            exact ih (hpast.passed hpassed) (Node.isBounded_of_branch hnode) (by omega) (by omega)
      | _ => exact .answer hs hleft

theorem binary_ends (floor : Nat) {calls : Nat} {s : Counters} {rest : List Lexeme}
    (hs : s.Stands tokens room rest) (hcalls : 6 * (room + rest.length) + 2 ≤ calls) :
    Ends Node.IsBounded tokens s ((binary tokens calls floor).outcome s)
      (readBinary (Readers.within room) floor rest) := by
  obtain ⟨calls, rfl, hfewer⟩ := exists_call hcalls
  rw [binary]
  apply Ends.enter hs.depth_le
  unfold readBinary
  refine .bind hs.entered.reached ?_ (unary_ends hnests hs.entered hfewer)
  intro left s' behind hpassed hbounded
  have hlength := hpassed.length_lt hs.entered.toFaces
  exact chain_ends hnests hs.entered hpassed hbounded (Nat.le_refl _) (by omega)

theorem conditional_ends {calls : Nat} {s : Counters} {rest : List Lexeme}
    (hs : s.Stands tokens room rest) (hcalls : 6 * (room + rest.length) + 3 ≤ calls) :
    Ends Node.IsBounded tokens s ((conditional tokens calls).outcome s)
      (readConditional (Readers.within room) rest) := by
  obtain ⟨calls, rfl, hfewer⟩ := exists_call hcalls
  rw [conditional]
  apply Ends.enter hs.depth_le
  unfold readConditional
  refine .bind hs.entered.reached ?_ (binary_ends hnests 0 hs.entered hfewer)
  intro test s₁ behindTest hpassed hbounded
  split
  · rw [outcome_takeSymbol?_none hpassed.faces ‹_›]
    exact .answer hpassed hbounded
  rename_i op behind hquestion
  rw [outcome_takeSymbol?_some hpassed.faces hquestion]
  obtain ⟨offset, rfl⟩ := frontSymbol?_eq_some hquestion
  have hafter := hpassed.advance
  have hlength := hafter.length_lt hs.entered.toFaces
  have hnested : 6 * (room + behind.length) ≤ calls := by omega
  refine .bind hafter.toReached ?_ (hnests.assignment (hafter.stands hs.entered) hnested)
  intro consequent s₂ behindConsequent hpassed' _
  have htaken := hafter.passed hpassed'
  split
  · rw [outcome_takeSymbol?_none htaken.faces ‹_›]
    simp only
    rw [outcome_peek_bind htaken.faces]
    exact .refusal htaken.deepest
  rename_i op' behind' hcolon
  rw [outcome_takeSymbol?_some htaken.faces hcolon]
  obtain ⟨offset', rfl⟩ := frontSymbol?_eq_some hcolon
  have hafter' := htaken.advance
  have hlength' := hafter'.length_lt hs.entered.toFaces
  have hnested' : 6 * (room + behind'.length) ≤ calls := by omega
  have halternative := hnests.assignment (hafter'.stands hs.entered) hnested'
  exact foreign_ends .conditional hafter'.toReached halternative

theorem assignment_ends {calls : Nat} {s : Counters} {rest : List Lexeme}
    (hs : s.Stands tokens room rest) (hcalls : 6 * (room + rest.length) + 4 ≤ calls) :
    Ends Node.IsBounded tokens s ((assignment tokens calls).outcome s)
      (readAssignment (Readers.within room) rest) := by
  obtain ⟨calls, rfl, hfewer⟩ := exists_call hcalls
  rw [assignment]
  apply Ends.enter hs.depth_le
  unfold readAssignment
  refine .bind hs.entered.reached ?_ (conditional_ends hnests hs.entered hfewer)
  intro target s₁ behindTarget hpassed hbounded
  split
  · rw [outcome_takeSymbol?_none hpassed.faces ‹_›]
    exact .answer hpassed hbounded
  rename_i op behind hassign
  rw [outcome_takeSymbol?_some hpassed.faces hassign]
  obtain ⟨offset, rfl⟩ := frontSymbol?_eq_some hassign
  have hafter := hpassed.advance
  have hlength := hafter.length_lt hs.entered.toFaces
  have hnested : 6 * (room + behind.length) ≤ calls := by omega
  have hvalue := hnests.assignment (hafter.stands hs.entered) hnested
  exact foreign_ends .assignment hafter.toReached hvalue

theorem expression_ends {calls : Nat} {s : Counters} {rest : List Lexeme}
    (hs : s.Stands tokens room rest) (hcalls : 6 * (room + rest.length) + 5 ≤ calls) :
    Ends Node.IsBounded tokens s ((expression tokens calls).outcome s)
      (readAssignment (Readers.within room) rest) := by
  obtain ⟨calls, rfl, hfewer⟩ := exists_call hcalls
  rw [expression]
  exact .enter hs.depth_le (assignment_ends hnests hs.entered hfewer)

theorem nextItems_ends {calls rounds : Nat} {items : List Node} {s₀ s : Counters}
    {rest rest₀ : List Lexeme} (hs₀ : s₀.Stands tokens room rest₀) (hs : Reached tokens s₀ s rest)
    (hrounds : rest.length < rounds) (hcalls : 6 * (room + rest.length) + 5 ≤ calls) :
    Ends Node.IsBounded tokens s₀ ((nextItems tokens calls items).outcome s)
      (readListBehind (readAssignment (Readers.within room)) items rounds rest) := by
  -- The reader collects the items behind, the loop those in front: `items` grows with every round.
  induction rounds generalizing calls s items rest with
  | zero => exact absurd hrounds (Nat.not_lt_zero _)
  | succ rounds ih =>
    obtain ⟨calls, rfl, hfewer⟩ := exists_call hcalls
    rw [nextItems]
    by_cases hbracket : rest.head?.map Lexeme.token = some .rightBracket
    · obtain ⟨offset, behind, rfl⟩ := exists_of_head? hbracket
      rw [outcome_take_cons hs.faces]
      simp only [if_true, readListBehind, readItems, List.append_nil]
      exact ofList_ends items hs.advance
    rw [outcome_take_of_ne hs.faces hbracket, if_neg Bool.false_ne_true,
      outcome_peek_bind hs.faces]
    by_cases hcomma : rest.head?.map Lexeme.token = some .comma
    · obtain ⟨offset, behind, rfl⟩ := exists_of_head? hcomma
      exact .refusal hs.deepest
    simp only [if_neg hcomma]
    have hitem := assignment_ends hnests (hs.stands hs₀) hfewer
    cases hread : readAssignment (Readers.within room) rest with
    | error e =>
      rw [readListBehind, readItems_item hbracket hcomma, hread]
      exact hitem.failed hread hs
    | ok answer =>
      obtain ⟨item, behind⟩ := answer
      obtain ⟨s', houtcome, hpassed, -⟩ := hitem.ok hread
      have hlength := hpassed.length_lt hs.faces
      rw [outcome_bind_ok houtcome]
      by_cases hmore : behind.head?.map Lexeme.token = some .comma
      · obtain ⟨offset, behind, rfl⟩ := exists_of_head? hmore
        rw [List.length_cons] at hlength
        rw [readListBehind_comma hbracket hcomma hread, outcome_take_cons hpassed.faces]
        exact ih (hs.trans hpassed.advance.toReached) (by omega) (by omega)
      · rw [readListBehind_last hbracket hcomma hread hmore,
          outcome_take_of_ne hpassed.faces hmore, if_neg Bool.false_ne_true]
        refine .close (hs.passed hpassed).toReached ?_
        intro behind' hclosed
        exact ofList_ends (items ++ [item]) ((hs.passed hpassed).passed hclosed)

theorem array_ends {calls : Nat} {s : Counters} {rest : List Lexeme}
    (hs : s.Stands tokens room rest) (hcalls : 6 * (room + rest.length) + 6 ≤ calls) :
    Ends Node.IsBounded tokens s ((array tokens calls).outcome s)
      (readList (readAssignment (Readers.within room)) rest) := by
  obtain ⟨calls, rfl, hfewer⟩ := exists_call hcalls
  rw [array]
  apply Ends.enter hs.depth_le
  exact nextItems_ends hnests hs.entered hs.entered.reached (Nat.lt_succ_self _) hfewer

theorem nextArguments_ends {calls rounds : Nat} {s₀ s : Counters} {rest rest₀ : List Lexeme}
    (hs₀ : s₀.Stands tokens room rest₀) (hs : Reached tokens s₀ s rest)
    (hrounds : rest.length < rounds) (hcalls : 6 * (room + rest.length) + 5 ≤ calls) :
    Ends (fun _ => True) tokens s₀ ((nextArguments tokens calls).outcome s)
      ((readArguments (readAssignment (Readers.within room)) rounds rest).map ((), ·)) := by
  induction rounds generalizing calls s rest with
  | zero => exact absurd hrounds (Nat.not_lt_zero _)
  | succ rounds ih =>
    obtain ⟨calls, rfl, hfewer⟩ := exists_call hcalls
    rw [nextArguments]
    have hargument := assignment_ends hnests (hs.stands hs₀) hfewer
    unfold readArguments
    split
    · exact hargument.failed ‹_› hs
    · rename_i argument offset behind hread
      obtain ⟨s', houtcome, hpassed, -⟩ := hargument.ok hread
      have hlength := hpassed.length_lt hs.faces
      rw [List.length_cons] at hlength
      rw [outcome_bind_ok houtcome, outcome_take_cons hpassed.faces]
      exact ih (hs.trans hpassed.advance.toReached) (by omega) (by omega)
    · rename_i argument behind hmore hread
      obtain ⟨s', houtcome, hpassed, -⟩ := hargument.ok hread
      have hne : behind.head?.map Lexeme.token ≠ some .comma := by
        intro hhead
        obtain ⟨offset, behind, rfl⟩ := exists_of_head? hhead
        exact hmore _ _ rfl
      rw [outcome_bind_ok houtcome, outcome_take_of_ne hpassed.faces hne,
        if_neg Bool.false_ne_true]
      cases hclose : expect .rightParen behind with
      | error e =>
        rw [outcome_close_error hpassed.faces hclose]
        exact .refusal (hs.trans hpassed.toReached).deepest
      | ok behind =>
        obtain ⟨houtcome, hclosed⟩ := outcome_close_ok hpassed.faces hclose
        rw [houtcome]
        exact .answer ((hs.passed hpassed).passed hclosed) trivial

theorem arguments_ends {calls : Nat} {s : Counters} {rest : List Lexeme}
    (hs : s.Stands tokens room rest) (hcalls : 6 * (room + rest.length) + 6 ≤ calls) :
    Ends (fun _ => True) tokens s ((arguments tokens calls).outcome s)
      (readCall (readAssignment (Readers.within room)) rest) := by
  obtain ⟨calls, rfl, hfewer⟩ := exists_call hcalls
  rw [arguments]
  apply Ends.enter hs.depth_le
  have hs' := hs.entered.reached
  by_cases hclosed : rest.head?.map Lexeme.token = some .rightParen
  · obtain ⟨offset, behind, rfl⟩ := exists_of_head? hclosed
    rw [outcome_take_cons hs'.faces]
    exact .answer hs'.advance trivial
  · rw [outcome_take_of_ne hs'.faces hclosed, if_neg Bool.false_ne_true, readCall_arguments hclosed]
    exact nextArguments_ends hnests hs.entered hs' (Nat.lt_succ_self _) hfewer

theorem primary_ends {calls : Nat} {s : Counters} {rest : List Lexeme}
    (hs : s.Stands tokens room rest) (hcalls : 6 * (room + rest.length) + 1 ≤ calls) :
    Ends Node.IsBounded tokens s ((primary tokens calls).outcome s)
      (readPrimary (readAssignment (Readers.within room)) rest) := by
  obtain ⟨calls, rfl, hfewer⟩ := exists_call hcalls
  rw [primary]
  apply Ends.enter hs.depth_le
  have hs' := hs.entered.reached
  rw [outcome_peek_bind hs'.faces]
  cases rest with
  | nil => exact .refusal hs'.deepest
  | cons l behind =>
    obtain ⟨token, offset⟩ := l
    have hpast := hs'.advance
    rw [List.length_cons] at hfewer
    cases token with
    | number | column | name | quotation => exact .answer hpast (Node.isBounded_leaf _)
    | leftParen =>
      simp only [List.head?_cons, readPrimary]
      rw [outcome_advance_bind]
      have hnested : 6 * (room + behind.length) + 5 ≤ calls := by omega
      refine .bind hpast.toReached ?_ (expression_ends hnests (hpast.stands hs.entered) hnested)
      intro inside s' behindInside hpassed hbounded
      refine .close (hpast.passed hpassed).toReached ?_
      intro behind' hclosed
      exact .answer ((hpast.passed hpassed).passed hclosed) hbounded
    | leftBracket =>
      simp only [List.head?_cons]
      rw [outcome_advance_bind]
      exact (array_ends hnests (hpast.stands hs.entered) hfewer).after hpast.toReached
    | symbol | rightParen | rightBracket | comma | semicolon => exact .refusal hs'.deepest

theorem suffixes_ends {calls rounds : Nat} {node : Node} {s₀ s : Counters}
    {rest rest₀ : List Lexeme} (hs₀ : s₀.Stands tokens room rest₀) (hs : Passed tokens s₀ s rest)
    (hnode : node.IsBounded) (hrounds : rest.length ≤ rounds)
    (hcalls : 6 * (room + rest.length) + 1 ≤ calls) :
    Ends Node.IsBounded tokens s₀ ((suffixes tokens calls node).outcome s)
      (readSuffixes (readAssignment (Readers.within room)) rounds node rest) := by
  induction rounds generalizing calls s node rest with
  | zero =>
    obtain ⟨calls, rfl, hfewer⟩ := exists_call hcalls
    obtain rfl := List.eq_nil_of_length_eq_zero (Nat.le_zero.mp hrounds)
    rw [outcome_suffixes_none hs.faces (by simp) (by simp) rfl rfl]
    exact .answer hs hnode
  | succ rounds ih =>
    obtain ⟨calls, rfl, hfewer⟩ := exists_call hcalls
    -- Every suffix leaves a foreign phrase, which is a leaf.
    have hnext : ∀ {construct : Construct} {s' : Counters} {rest' : List Lexeme},
        Passed tokens s s' rest' →
        Ends Node.IsBounded tokens s₀
          ((suffixes tokens calls (.leaf (.foreign construct))).outcome s')
          (readSuffixes (readAssignment (Readers.within room)) rounds (.leaf (.foreign construct))
            rest') := by
      intro construct s' rest' hpassed
      have hlength := hpassed.length_lt hs.faces
      exact ih (hs.passed hpassed) (Node.isBounded_leaf _) (by omega) (by omega)
    cases rest with
    | nil =>
      rw [outcome_suffixes_none hs.faces (by simp) (by simp) rfl rfl]
      exact .answer hs hnode
    | cons l behind =>
      obtain ⟨token, offset⟩ := l
      have hpast := hs.faces.reached.advance
      have hpast₀ := hs.passed hpast
      rw [List.length_cons] at hfewer
      cases token with
      | leftParen =>
        rw [outcome_suffixes_call hs.faces, readSuffixes_call]
        have hcall := arguments_ends hnests (hpast₀.stands hs₀) hfewer
        split
        · exact hcall.failed ‹_› hpast₀.toReached
        · obtain ⟨s', houtcome, hpassed, -⟩ := hcall.ok ‹_›
          rw [outcome_bind_ok houtcome]
          exact hnext (hpast.passed hpassed)
      | leftBracket =>
        rw [outcome_suffixes_subscript hs.faces]
        have hnested : 6 * (room + behind.length) + 5 ≤ calls := by omega
        simp only [readSuffixes]
        refine .bind hpast₀.toReached ?_ (expression_ends hnests (hpast₀.stands hs₀) hnested)
        intro index s' behindIndex hpassed _
        refine .close (hpast₀.passed hpassed).toReached ?_
        intro behind' hclosed
        exact hnext ((hpast.passed hpassed).passed hclosed)
      | symbol op =>
        by_cases hdot : op = .dot
        · subst hdot
          rw [outcome_suffixes_dot hs.faces, readSuffixes_dot]
          have hproperty := property_ends hpast.faces
          split
          · exact hproperty.failed ‹_› hpast₀.toReached
          · obtain ⟨s', houtcome, hpassed, -⟩ := hproperty.ok ‹_›
            rw [outcome_bind_ok houtcome]
            exact hnext (hpast.passed hpassed)
        by_cases hupdate : op.isUpdate = true
        · rw [outcome_suffixes_update hs.faces hdot hupdate, readSuffixes_update hupdate]
          exact hnext hpast
        · have hnodot : frontSymbol? (· = .dot) (⟨.symbol op, offset⟩ :: behind) = none := by
            simp [frontSymbol?, hdot]
          rw [outcome_suffixes_none hs.faces (by simp) (by simp) hnodot (if_neg hupdate),
            readSuffixes_symbol hdot hupdate]
          exact .answer hs hnode
      | _ =>
        rw [outcome_suffixes_none hs.faces (by simp) (by simp) rfl rfl]
        exact .answer hs hnode

theorem suffixed_ends {calls : Nat} {s : Counters} {rest : List Lexeme}
    (hs : s.Stands tokens room rest) (hcalls : 6 * (room + rest.length) + 2 ≤ calls) :
    Ends Node.IsBounded tokens s ((suffixed tokens calls).outcome s)
      (readPostfix (readAssignment (Readers.within room)) rest) := by
  obtain ⟨calls, rfl, hfewer⟩ := exists_call hcalls
  rw [suffixed]
  apply Ends.enter hs.depth_le
  unfold readPostfix
  refine .bind hs.entered.reached ?_ (primary_ends hnests hs.entered hfewer)
  intro node s' behind hpassed hbounded
  have hlength := hpassed.length_lt hs.entered.toFaces
  exact suffixes_ends hnests hs.entered hpassed hbounded (Nat.le_refl _) (by omega)

theorem operand_ends {calls : Nat} {s : Counters} {rest : List Lexeme}
    (hs : s.Stands tokens room rest) (hcalls : 6 * (room + rest.length) + 3 ≤ calls) :
    Ends Node.IsBounded tokens s ((operand tokens calls).outcome s)
      (readOperand (Readers.within room) rest) := by
  obtain ⟨calls, rfl, hfewer⟩ := exists_call hcalls
  rw [operand]
  apply Ends.enter hs.depth_le
  have hs' := hs.entered.reached
  cases hunary : frontSymbol? Symbol.isUnary rest with
  | some front =>
    obtain ⟨op, behind⟩ := front
    rw [outcome_takeSymbol?_some hs'.faces hunary, readOperand_unary hunary]
    obtain ⟨offset, rfl⟩ := frontSymbol?_eq_some hunary
    rw [List.length_cons] at hfewer
    have hpast := hs'.advance
    have hnested : 6 * (room + behind.length) + 1 ≤ calls := by omega
    exact foreign_ends .unary hpast.toReached (unary_ends hnests (hpast.stands hs.entered) hnested)
  | none =>
    rw [outcome_takeSymbol?_none hs'.faces hunary]
    simp only
    cases hupdate : frontSymbol? Symbol.isUpdate rest with
    | some front =>
      obtain ⟨op, behind⟩ := front
      rw [outcome_takeSymbol?_some hs'.faces hupdate, readOperand_update hupdate]
      obtain ⟨offset, rfl⟩ := frontSymbol?_eq_some hupdate
      rw [List.length_cons] at hfewer
      have hpast := hs'.advance
      have hnested : 6 * (room + behind.length) + 1 ≤ calls := by omega
      exact foreign_ends .update hpast.toReached
        (unary_ends hnests (hpast.stands hs.entered) hnested)
    | none =>
      rw [outcome_takeSymbol?_none hs'.faces hupdate, readOperand_suffixed hunary hupdate]
      exact suffixed_ends hnests hs.entered hfewer

end Room

theorem nests_within (tokens : List Lexeme) (room : Nat) : Nests tokens room := by
  induction room with
  | zero =>
    have hclosed : ∀ {reading : Counted Node} {s : Counters} {rest : List Lexeme},
        s.Stands tokens 0 rest →
        Ends Node.IsBounded tokens s ((descend reading).outcome s) (.error tooDeep) := by
      intro reading s rest hs
      rw [outcome_descend, if_pos (Nat.lt_succ_of_le hs.depth_add.ge)]
      exact .refusal (Nat.le_max_left _ _)
    exact ⟨fun hs _ => hclosed hs, fun _ _ _ _ hs _ => hclosed hs, fun hs _ => hclosed hs⟩
  | succ room ih =>
    have hlt : ∀ {s : Counters} {rest : List Lexeme}, s.Stands tokens (room + 1) rest →
        s.depth < maxNesting := by
      intro s rest hs
      have hdepth := hs.depth_add
      omega
    constructor
    · exact fun hs _ => .descend (hlt hs) (operand_ends ih hs.deeper (by omega))
    · exact fun floor _ _ _ hs _ => .descend (hlt hs) (binary_ends ih floor hs.deeper (by omega))
    · exact fun hs _ => .descend (hlt hs) (assignment_ends ih hs.deeper (by omega))

end Counted

namespace Reading

variable {α : Type}

def counted (tokens : List Lexeme) (calls : Nat) : Reading α → Counted α
  | expression => Counted.expression tokens calls
  | assignment => Counted.assignment tokens calls
  | conditional => Counted.conditional tokens calls
  | binary floor => Counted.binary tokens calls floor
  | unary => Counted.unary tokens calls
  | operand => Counted.operand tokens calls
  | suffixed => Counted.suffixed tokens calls
  | primary => Counted.primary tokens calls
  | array => Counted.array tokens calls
  | arguments => Counted.arguments tokens calls

/-- What is answered is no higher than allowed. Arguments have no height. -/
def IsBounded : Reading α → α → Prop
  | expression, node | assignment, node | conditional, node | binary _, node | unary, node
  | operand, node | suffixed, node | primary, node | array, node => node.IsBounded
  | arguments, _ => True

theorem ends {tokens rest : List Lexeme} {calls room : Nat} {s : Counters} (reading : Reading α)
    (hs : s.Stands tokens room rest) (hcalls : 6 * (room + rest.length) + 6 ≤ calls) :
    Ends reading.IsBounded tokens s ((reading.counted tokens calls).outcome s)
      (reading.read (Readers.within room) rest) := by
  have hnests := Counted.nests_within tokens room
  cases reading with
  | expression => exact Counted.expression_ends hnests hs (by omega)
  | assignment => exact Counted.assignment_ends hnests hs (by omega)
  | conditional => exact Counted.conditional_ends hnests hs (by omega)
  | binary floor => exact Counted.binary_ends hnests floor hs (by omega)
  | unary => exact Counted.unary_ends hnests hs (by omega)
  | operand => exact Counted.operand_ends hnests hs (by omega)
  | suffixed => exact Counted.suffixed_ends hnests hs (by omega)
  | primary => exact Counted.primary_ends hnests hs (by omega)
  | array => exact Counted.array_ends hnests hs hcalls
  | arguments => exact Counted.arguments_ends hnests hs hcalls

/-- As many calls are enough for every reading of the tokens, wherever it begins. -/
def enoughCalls (tokens : List Lexeme) : Nat := 6 * (maxNesting + tokens.length) + 6

theorem ends_of_enoughCalls {tokens : List Lexeme} {calls : Nat} {s : Counters}
    (reading : Reading α) (hposition : s.position ≤ tokens.length) (hdepth : s.depth ≤ maxNesting)
    (hcalls : enoughCalls tokens ≤ calls) :
    Ends reading.IsBounded tokens s ((reading.counted tokens calls).outcome s)
      (reading.read (Readers.within (maxNesting - s.depth)) (tokens.drop s.position)) := by
  apply reading.ends (.start hposition hdepth)
  rw [enoughCalls] at hcalls
  rw [List.length_drop]
  omega

/-- A whole text is read from its first token on, with all the room there is. -/
theorem expression_ends_at_start (tokens : List Lexeme) :
    Ends Node.IsBounded tokens ⟨0, 0, 0⟩
      ((Counted.expression tokens (enoughCalls tokens)).outcome ⟨0, 0, 0⟩)
      ((Readers.within (maxNesting + 1)).assignment tokens) :=
  expression.ends_of_enoughCalls (Nat.zero_le _) (Nat.zero_le _) (Nat.le_refl _)

/-- Wherever a reading begins, it ends as the reader of its room does. It is refused as too deep
where the depth at which it begins leaves less room than its nesting, and that depends on nothing
but the tokens from there on. -/
theorem balanced (reading : Reading α) :
    ∃ (nesting : List Lexeme → Nat) (answer : Reader α),
      ∀ (tokens : List Lexeme) (s : Counters) (calls : Nat),
        s.position ≤ tokens.length → s.depth ≤ maxNesting → enoughCalls tokens ≤ calls →
          let rest := tokens.drop s.position
          let result := reading.read (Readers.within (maxNesting - s.depth)) rest
          Ends reading.IsBounded tokens s ((reading.counted tokens calls).outcome s) result ∧
            result =
              if maxNesting < s.depth + nesting rest then .error tooDeep else answer rest := by
  have hnesting : ∀ rest, ∃ nesting answer, ∀ room, reading.read (Readers.within room) rest =
      if room < nesting then .error tooDeep else answer :=
    fun rest => exists_nesting fun room => reading.read_yields (widens_within room) rest
  choose nesting answer hresult using hnesting
  refine ⟨nesting, answer, ?_⟩
  intro tokens s calls hposition hdepth hcalls
  refine ⟨reading.ends_of_enoughCalls hposition hdepth hcalls, ?_⟩
  rw [hresult]
  have hroom : maxNesting - s.depth < nesting (tokens.drop s.position) ↔
      maxNesting < s.depth + nesting (tokens.drop s.position) :=
    Nat.sub_lt_iff_lt_add' hdepth
  simp only [hroom]

/-- An operand behind another one, which is read at the last level that has room for it and refused
one level further in. -/
theorem unary_behind_operand :
    let tokens : List Lexeme := [⟨.name "a", 0⟩, ⟨.symbol .add, 2⟩, ⟨.name "b", 4⟩]
    let reading := unary.counted tokens (enoughCalls tokens)
    (∃ s, reading.outcome ⟨2, 255, 0⟩ = some (.ok (.leaf (.name "b")), s) ∧
      Passed tokens ⟨2, 255, 0⟩ s []) ∧
    ∃ s, reading.outcome ⟨2, 256, 0⟩ = some (.error tooDeep, s) ∧ s.deepest ≤ maxNesting := by
  intro tokens reading
  obtain ⟨nesting, answer, hunary⟩ := balanced unary
  obtain ⟨hread, -⟩ := hunary tokens ⟨2, 255, 0⟩ _ (by decide) (by decide) (Nat.le_refl _)
  obtain ⟨hrefused, -⟩ := hunary tokens ⟨2, 256, 0⟩ _ (by decide) (by decide) (Nat.le_refl _)
  obtain ⟨s, houtcome, hpassed, -⟩ := hread.ok rfl
  exact ⟨⟨s, houtcome, hpassed⟩, hrefused.error rfl⟩

end Reading

end ColumnRules
