import ColumnRules.Proofs.Grammar.Counted
import ColumnRules.Proofs.Grammar.Dispatch

/-!
# How readings on counters end

What a step does to the counters is said here once, and how a reading that is made of steps goes
on. Where a reading ends, it ends as a reader of tokens does, and the depth is what it was.
-/

set_option autoImplicit false

namespace ColumnRules

open Phrase

/-- The tokens `rest` are still to be taken. -/
structure Counters.Faces (s : Counters) (tokens rest : List Lexeme) : Prop where
  rest_eq : tokens.drop s.position = rest
  position_le : s.position ≤ tokens.length

/-- The tokens `rest` are still to be taken, with room for that many nested readings. -/
structure Counters.Stands (s : Counters) (tokens : List Lexeme) (room : Nat) (rest : List Lexeme) :
    Prop extends s.Faces tokens rest where
  depth_add : s.depth + room = maxNesting

/-- A reading that began at `s` has come to `s'`. -/
structure Reached (tokens : List Lexeme) (s s' : Counters) (rest : List Lexeme) : Prop where
  faces : s'.Faces tokens rest
  advanced : s.position ≤ s'.position
  depth : s'.depth = s.depth
  deepest : s'.deepest ≤ max s.deepest maxNesting

/-- It has taken tokens on the way. -/
structure Passed (tokens : List Lexeme) (s s' : Counters) (rest : List Lexeme) : Prop
    extends Reached tokens s s' rest where
  progress : s.position < s'.position

section Counters

variable {tokens rest rest' : List Lexeme} {s s' s'' : Counters} {l : Lexeme}

namespace Counters.Faces

theorem length_rest (h : s.Faces tokens rest) : rest.length + s.position = tokens.length := by
  have hposition := h.position_le
  rw [← h.rest_eq, List.length_drop]
  omega

theorem head? (h : s.Faces tokens rest) : tokens[s.position]? = rest.head? := by
  rw [← h.rest_eq, List.head?_drop]

theorem advanced (h : s.Faces tokens (l :: rest)) : s.advanced.Faces tokens rest := by
  have hlength := h.length_rest
  rw [List.length_cons] at hlength
  constructor
  · rw [Counters.advanced, ← List.drop_drop, h.rest_eq]
    rfl
  · simp only [Counters.advanced]
    omega

theorem reached (h : s.Faces tokens rest) : Reached tokens s s rest :=
  ⟨h, Nat.le_refl _, rfl, Nat.le_max_left _ _⟩

end Counters.Faces

namespace Counters.Stands

variable {room : Nat}

theorem start (hposition : s.position ≤ tokens.length) (hdepth : s.depth ≤ maxNesting) :
    s.Stands tokens (maxNesting - s.depth) (tokens.drop s.position) :=
  ⟨⟨rfl, hposition⟩, Nat.add_sub_of_le hdepth⟩

theorem reached (h : s.Stands tokens room rest) : Reached tokens s s rest := h.toFaces.reached

theorem depth_le (h : s.Stands tokens room rest) : s.depth ≤ maxNesting :=
  h.depth_add ▸ Nat.le_add_right _ _

theorem entered (h : s.Stands tokens room rest) : s.entered.Stands tokens room rest :=
  ⟨⟨h.rest_eq, h.position_le⟩, h.depth_add⟩

theorem deeper (h : s.Stands tokens (room + 1) rest) : s.deeper.Stands tokens room rest := by
  refine ⟨⟨h.rest_eq, h.position_le⟩, ?_⟩
  rw [← h.depth_add, Counters.deeper, Nat.add_right_comm, Nat.add_assoc]

end Counters.Stands

theorem Reached.stands {room : Nat} (h : Reached tokens s s' rest')
    (hs : s.Stands tokens room rest) : s'.Stands tokens room rest' :=
  ⟨h.faces, h.depth ▸ hs.depth_add⟩

theorem Reached.trans (h : Reached tokens s s' rest) (h' : Reached tokens s' s'' rest') :
    Reached tokens s s'' rest' := by
  have hdeepest := h.deepest
  have hdeepest' := h'.deepest
  refine ⟨h'.faces, Nat.le_trans h.advanced h'.advanced, h'.depth.trans h.depth, ?_⟩
  omega

theorem Reached.passed (h : Reached tokens s s' rest) (h' : Passed tokens s' s'' rest') :
    Passed tokens s s'' rest' :=
  ⟨h.trans h'.toReached, Nat.lt_of_le_of_lt h.advanced h'.progress⟩

theorem Reached.advance (h : Reached tokens s s' (l :: rest)) : Passed tokens s s'.advanced rest :=
  ⟨⟨h.faces.advanced, Nat.le_succ_of_le h.advanced, h.depth, h.deepest⟩,
    Nat.lt_succ_of_le h.advanced⟩

theorem Passed.length_lt (h : Passed tokens s s' rest') (hs : s.Faces tokens rest) :
    rest'.length < rest.length := by
  have hlength := h.faces.length_rest
  have hlength' := hs.length_rest
  have hprogress := h.progress
  omega

end Counters

/-- A reading that began at `s` comes to an end, and it ends as a reader does: with the answer, at
the rest and at the depth at which it began, or with the error. On the way no reading begins deeper
than allowed. -/
inductive Ends {α : Type} (P : α → Prop) (tokens : List Lexeme) (s : Counters) :
    Option (Except ParseError α × Counters) → Except ParseError (α × List Lexeme) → Prop where
  | answer {a : α} {s' : Counters} {rest : List Lexeme} (hpassed : Passed tokens s s' rest)
      (ha : P a) : Ends P tokens s (some (.ok a, s')) (.ok (a, rest))
  | refusal {e : ParseError} {s' : Counters} (hdeepest : s'.deepest ≤ max s.deepest maxNesting) :
      Ends P tokens s (some (.error e, s')) (.error e)

namespace Counted

variable {α β : Type}

/-- How a reading that begins at `s` ends, if it does. -/
def outcome (reading : Counted α) (s : Counters) : Option (Except ParseError α × Counters) :=
  reading.run.run s

theorem outcome_bind (reading : Counted α) (next : α → Counted β) (s : Counters) :
    (reading >>= next).outcome s =
      match reading.outcome s with
      | none => none
      | some (.error e, s') => some (.error e, s')
      | some (.ok a, s') => (next a).outcome s' := by
  unfold outcome
  rw [ExceptT.run_bind, StateT.run_bind]
  cases h : reading.run.run s with
  | none => rfl
  | some p =>
    obtain ⟨result, s'⟩ := p
    cases result <;> rfl

theorem outcome_bind_ok {reading : Counted α} {next : α → Counted β} {s s' : Counters} {a : α}
    (h : reading.outcome s = some (.ok a, s')) :
    (reading >>= next).outcome s = (next a).outcome s' := by
  rw [outcome_bind, h]

theorem outcome_bind_error {reading : Counted α} {next : α → Counted β} {s s' : Counters}
    {e : ParseError} (h : reading.outcome s = some (.error e, s')) :
    (reading >>= next).outcome s = some (.error e, s') := by
  rw [outcome_bind, h]

theorem outcome_descend (reading : Counted α) (s : Counters) :
    (descend reading).outcome s =
      if maxNesting < s.depth + 1 then some (.error tooDeep, s.deeper)
      else (reading.outcome s.deeper).map fun p => (p.1, p.2.shallower) := by
  change (ite (maxNesting < s.deeper.depth) _ _ : StateT Counters Option _).run s.deeper = _
  split
  · rw [if_pos ‹_›]
    rfl
  · rw [if_neg ‹_›]
    unfold outcome
    rw [StateT.run_bind, Option.map_eq_bind]
    rfl

theorem outcome_advance_bind (next : Unit → Counted α) (s : Counters) :
    (advance >>= next).outcome s = (next ()).outcome s.advanced :=
  outcome_bind_ok rfl

variable {tokens rest : List Lexeme} {s : Counters}

theorem outcome_peek_bind (hs : s.Faces tokens rest) (next : Option Lexeme → Counted α) :
    (peek tokens >>= next).outcome s = (next rest.head?).outcome s := by
  rw [← hs.head?]
  exact outcome_bind_ok rfl

theorem outcome_take_cons {token : Token} {offset : Nat}
    (hs : s.Faces tokens (⟨token, offset⟩ :: rest)) (next : Bool → Counted α) :
    (take tokens token >>= next).outcome s = (next true).outcome s.advanced := by
  apply outcome_bind_ok
  rw [take, outcome_peek_bind hs]
  simp only [List.head?_cons, if_true]
  rfl

theorem outcome_take_of_ne {token : Token} (hs : s.Faces tokens rest)
    (hne : rest.head?.map Lexeme.token ≠ some token) (next : Bool → Counted α) :
    (take tokens token >>= next).outcome s = (next false).outcome s := by
  apply outcome_bind_ok
  rw [take, outcome_peek_bind hs]
  cases rest with
  | nil => rfl
  | cons l rest =>
    have hl : ¬ l.token = token := fun hl => hne (congrArg some hl)
    simp only [List.head?_cons, if_neg hl]
    rfl

theorem outcome_takeSymbol?_some {accepts : Symbol → Bool} {op : Symbol} {rest' : List Lexeme}
    (hs : s.Faces tokens rest) (h : frontSymbol? accepts rest = some (op, rest'))
    (next : Option Symbol → Counted α) :
    (takeSymbol? tokens accepts >>= next).outcome s = (next (some op)).outcome s.advanced := by
  apply outcome_bind_ok
  have haccepts := frontSymbol?_accepts h
  obtain ⟨offset, rfl⟩ := frontSymbol?_eq_some h
  rw [takeSymbol?, outcome_peek_bind hs]
  simp only [List.head?_cons, if_pos haccepts]
  rfl

theorem outcome_takeSymbol?_none {accepts : Symbol → Bool} (hs : s.Faces tokens rest)
    (h : frontSymbol? accepts rest = none) (next : Option Symbol → Counted α) :
    (takeSymbol? tokens accepts >>= next).outcome s = (next none).outcome s := by
  apply outcome_bind_ok
  rw [takeSymbol?, outcome_peek_bind hs]
  cases rest with
  | nil => rfl
  | cons l rest =>
    obtain ⟨token, offset⟩ := l
    cases token with
    | symbol op =>
      have hrefuses : ¬ accepts op = true := by
        intro haccepts
        simp [frontSymbol?, haccepts] at h
      simp only [List.head?_cons, if_neg hrefuses]
      rfl
    | _ => rfl

theorem outcome_close_ok {token : Token} {rest' : List Lexeme} (hs : s.Faces tokens rest)
    (h : expect token rest = .ok rest') :
    (close tokens token).outcome s = some (.ok (), s.advanced) ∧
      Passed tokens s s.advanced rest' := by
  obtain ⟨offset, rfl⟩ := expect_ok h
  refine ⟨?_, hs.reached.advance⟩
  rw [close, outcome_take_cons hs]
  rfl

theorem outcome_close_error {token : Token} {e : ParseError} (hs : s.Faces tokens rest)
    (h : expect token rest = .error e) : (close tokens token).outcome s = some (.error e, s) := by
  have hne : rest.head?.map Lexeme.token ≠ some token := by
    intro hhead
    obtain ⟨offset, behind, rfl⟩ := exists_of_head? hhead
    rw [expect, if_pos rfl] at h
    cases h
  have he : e = .malformed (.missing (.closing token) rest.head?) := by
    cases rest with
    | nil =>
      cases h
      rfl
    | cons l rest =>
      rw [expect, if_neg fun hl => hne (congrArg some hl)] at h
      cases h
      rfl
  rw [close, outcome_take_of_ne hs hne, he]
  exact outcome_peek_bind hs _

end Counted

namespace Ends

open Counted

variable {α β : Type} {P : α → Prop} {Q : β → Prop} {tokens rest : List Lexeme}
  {s₀ s : Counters} {x : Except ParseError (α × List Lexeme)}

theorem ok {o : Option (Except ParseError α × Counters)} {a : α} (h : Ends P tokens s o x)
    (hx : x = .ok (a, rest)) : ∃ s', o = some (.ok a, s') ∧ Passed tokens s s' rest ∧ P a := by
  subst hx
  cases h with
  | answer hpassed ha => exact ⟨_, rfl, hpassed, ha⟩

theorem error {o : Option (Except ParseError α × Counters)} {e : ParseError}
    (h : Ends P tokens s o x) (hx : x = .error e) :
    ∃ s', o = some (.error e, s') ∧ s'.deepest ≤ max s.deepest maxNesting := by
  subst hx
  cases h with
  | refusal hdeepest => exact ⟨_, rfl, hdeepest⟩

/-- What follows a reading that fails fails with it. -/
theorem failed {reading : Counted α} {next : α → Counted β} {e : ParseError}
    (h : Ends P tokens s (reading.outcome s) x) (hx : x = .error e)
    (hs : Reached tokens s₀ s rest) :
    Ends Q tokens s₀ ((reading >>= next).outcome s) (.error e) := by
  obtain ⟨s', houtcome, hdeepest⟩ := h.error hx
  have hdeepest₀ := hs.deepest
  rw [outcome_bind_error houtcome]
  apply refusal
  omega

/-- What follows a reading that answers goes on where that one has come to. -/
theorem bind {P Q : Node → Prop} {reading : Counted Node} {next : Node → Counted Node}
    {y : Node → Reader Node} {x : Except ParseError (Node × List Lexeme)}
    (hs : Reached tokens s₀ s rest)
    (hnext : ∀ {node s' rest'}, Passed tokens s s' rest' → P node →
      Ends Q tokens s₀ ((next node).outcome s') (y node rest')) :
    Ends P tokens s (reading.outcome s) x →
    Ends Q tokens s₀ ((reading >>= next).outcome s)
      (match x with
      | .error e => .error e
      | .ok (node, rest) => y node rest) := by
  -- This premise stands behind the colon: a `match` takes in whatever speaks of `x` in front of it.
  intro h
  cases x with
  | error e => exact h.failed rfl hs
  | ok answer =>
    obtain ⟨s', houtcome, hpassed, hnode⟩ := h.ok rfl
    rw [outcome_bind_ok houtcome]
    exact hnext hpassed hnode

theorem close {Q : Node → Prop} {token : Token} {next : Unit → Counted Node}
    {y : Reader Node} (hs : Reached tokens s₀ s rest)
    (hnext : ∀ {rest'}, Passed tokens s s.advanced rest' →
      Ends Q tokens s₀ ((next ()).outcome s.advanced) (y rest')) :
    Ends Q tokens s₀ ((Counted.close tokens token >>= next).outcome s)
      (match expect token rest with
      | .error e => .error e
      | .ok rest => y rest) := by
  split
  · rw [outcome_bind_error (outcome_close_error hs.faces ‹_›)]
    exact refusal hs.deepest
  · obtain ⟨hclose, hclosed⟩ := outcome_close_ok hs.faces ‹_›
    rw [outcome_bind_ok hclose]
    exact hnext hclosed

theorem after {o : Option (Except ParseError α × Counters)} (h : Ends P tokens s o x)
    (hs : Reached tokens s₀ s rest) : Ends P tokens s₀ o x := by
  cases h with
  | answer hpassed ha => exact answer (hs.passed hpassed) ha
  | refusal hdeepest =>
    have hdeepest₀ := hs.deepest
    exact refusal (by omega)

theorem enter {reading : Counted α} (hdepth : s.depth ≤ maxNesting)
    (h : Ends P tokens s.entered (reading.outcome s.entered) x) :
    Ends P tokens s ((Counted.enter >>= fun _ => reading).outcome s) x := by
  have hentered : max s.entered.deepest maxNesting = max s.deepest maxNesting := by
    simp only [Counters.entered]
    omega
  have houtcome : (Counted.enter >>= fun _ => reading).outcome s = reading.outcome s.entered :=
    outcome_bind_ok rfl
  rw [houtcome]
  generalize reading.outcome s.entered = o at h
  cases h with
  | answer hpassed ha =>
    obtain ⟨⟨hfaces, hadvanced, hdepth', hdeepest⟩, hprogress⟩ := hpassed
    exact answer ⟨⟨hfaces, hadvanced, hdepth', hentered ▸ hdeepest⟩, hprogress⟩ ha
  | refusal hdeepest => exact refusal (hentered ▸ hdeepest)

theorem descend {reading : Counted α} (hdepth : s.depth < maxNesting)
    (h : Ends P tokens s.deeper (reading.outcome s.deeper) x) :
    Ends P tokens s ((Counted.descend reading).outcome s) x := by
  rw [outcome_descend, if_neg (Nat.not_lt.mpr hdepth)]
  generalize reading.outcome s.deeper = o at h
  cases h with
  | answer hpassed ha =>
    obtain ⟨⟨hfaces, hadvanced, hdepth', hdeepest⟩, hprogress⟩ := hpassed
    refine answer ⟨⟨⟨hfaces.rest_eq, hfaces.position_le⟩, hadvanced, ?_, hdeepest⟩, hprogress⟩ ha
    rw [Counters.shallower, hdepth']
    rfl
  | refusal hdeepest => exact refusal hdeepest

end Ends

end ColumnRules
