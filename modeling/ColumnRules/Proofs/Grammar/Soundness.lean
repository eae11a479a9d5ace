import ColumnRules.Proofs.Grammar.Completeness

/-!
# What is read is derived

Every phrase of the rule language that is read comes from tokens that the grammar derives as its
expression. The reader knows many more constructs. Each of them leaves a mark in the phrase, a
foreign construct or an operator without meaning, and no expression is made of a marked phrase.
-/

set_option autoImplicit false

namespace ColumnRules

open Phrase

theorem Derives.loosen {level loose : Level} {ts : List Token} {e : Expr}
    (h : Derives level ts e) (hle : loose.precedence ≤ level.precedence) :
    Derives loose ts e :=
  Level.loosen (P := fun level => Derives level ts e) (fun _ => .operand) h hle

/-- The node was read off the tokens in front of `rest`, which the grammar derives as `e`. -/
structure Takes (level : Level) (tokens rest : List Lexeme) (node : Node) (e : Expr) : Prop where
  derives : ∃ used, tokens = used ++ rest ∧ Derives level (used.map Lexeme.token) e
  height : node.height = e.height
  bounded : e.height ≤ maxHeight

/-- What the reader answers is derived, as long as its phrase is an expression. -/
def SoundReader (level : Level) (read : Reader Node) : Prop :=
  ∀ tokens rest node e, read tokens = .ok (node, rest) → Expr.ofPhrase node.phrase = .ok e →
    Takes level tokens rest node e

/-- No operator in front binds as tightly as `floor`. -/
def Below (floor : Nat) (ls : List Lexeme) : Prop :=
  ∀ op offset rest p, ls = ⟨.symbol op, offset⟩ :: rest → op.precedence? = some p → p < floor

theorem below_symbol {floor offset : Nat} {op : Symbol} {rest : List Lexeme}
    (h : ∀ p, op.precedence? = some p → p < floor) :
    Below floor (⟨.symbol op, offset⟩ :: rest) := by
  intro op' offset' rest' p heq hp
  cases heq
  exact h p hp

structure SoundReaders (readers : Readers) : Prop where
  operand : SoundReader .atom readers.operand
  binary : ∀ floor tokens rest node e, floor ≤ 12 →
    readers.binary floor tokens = .ok (node, rest) → Expr.ofPhrase node.phrase = .ok e →
    Below floor rest ∧ ∃ level : Level, floor ≤ level.precedence ∧ Takes level tokens rest node e
  assignment : SoundReader .or readers.assignment

theorem Takes.loosen {level loose : Level} {tokens rest : List Lexeme} {node : Node} {e : Expr}
    (h : Takes level tokens rest node e) (hle : loose.precedence ≤ level.precedence) :
    Takes loose tokens rest node e := by
  obtain ⟨⟨used, rfl, hderives⟩, hheight, hbounded⟩ := h
  exact ⟨⟨used, rfl, hderives.loosen hle⟩, hheight, hbounded⟩

theorem branch_ok {phrase : Phrase} {tallest : Nat} {node : Node}
    (h : Node.branch phrase tallest = .ok node) :
    node = ⟨phrase, tallest + 1⟩ ∧ tallest + 1 ≤ maxHeight := by
  unfold Node.branch at h
  split at h
  · cases h
  · rename_i hheight
    cases h
    exact ⟨rfl, Nat.le_of_not_lt hheight⟩

theorem expect_ok {token : Token} {tokens rest : List Lexeme} (h : expect token tokens = .ok rest) :
    ∃ offset, tokens = ⟨token, offset⟩ :: rest := by
  cases tokens with
  | nil => cases h
  | cons l ls =>
    by_cases hl : l.token = token
    · rw [expect, if_pos hl] at h
      cases h
      exact ⟨l.offset, by rw [← hl]⟩
    · rw [expect, if_neg hl] at h
      cases h

/-- Only the operators of the grammar join phrases to expressions. -/
theorem connective_of_join {op : Symbol} {p q : Phrase} {e : Expr}
    (h : Expr.ofPhrase (Phrase.join op p q) = .ok e) :
    ∃ (c : Connective) (l r : Expr), c.symbol = op ∧ e = c.join l r ∧
      Expr.ofPhrase p = .ok l ∧ Expr.ofPhrase q = .ok r := by
  unfold Phrase.join at h
  split at h
  · unfold Expr.ofPhrase at h
    split at h
    · cases h
    rename_i c hop
    split at h
    · cases h
    rename_i l hl
    split at h
    · cases h
    rename_i r hr
    cases h
    exact ⟨.logical c, l, r, Connective.symbol_of_logical? hop, rfl, hl, hr⟩
  · unfold Expr.ofPhrase at h
    split at h
    · cases h
    rename_i c hop
    split at h
    · cases h
    split at h
    · cases h
    rename_i l hl
    split at h
    · cases h
    rename_i r hr
    cases h
    exact ⟨.binary c, l, r, Connective.symbol_of_binary? hop, rfl, hl, hr⟩

/-- What stands behind an operand changes nothing, or it leaves a foreign phrase. -/
theorem readSuffixes_ok {expression : Reader Node} {rounds : Nat} {node node' : Node}
    {tokens rest : List Lexeme}
    (h : readSuffixes expression rounds node tokens = .ok (node', rest)) :
    (node' = node ∧ rest = tokens) ∨ ∃ construct, node'.phrase = .foreign construct := by
  induction rounds generalizing node tokens with
  | zero =>
    cases h
    exact .inl ⟨rfl, rfl⟩
  | succ rounds ih =>
    have hforeign : ∀ {construct : Construct} {tokens : List Lexeme},
        readSuffixes expression rounds (.leaf (.foreign construct)) tokens = .ok (node', rest) →
        ∃ construct, node'.phrase = .foreign construct := by
      intro construct tokens h
      rcases ih h with ⟨rfl, -⟩ | hforeign
      · exact ⟨construct, rfl⟩
      · exact hforeign
    unfold readSuffixes at h
    split at h
    · exact .inr (hforeign h)
    · split at h
      · cases h
      · exact .inr (hforeign h)
    · split at h
      · cases h
      · split at h
        · cases h
        · exact .inr (hforeign h)
    · exact .inr (hforeign h)
    · exact .inr (hforeign h)
    · cases h
    · exact .inr (hforeign h)
    · exact .inr (hforeign h)
    · cases h
      exact .inl ⟨rfl, rfl⟩

theorem readItems_ok {expression : Reader Node} (hexpression : SoundReader .or expression)
    {rounds : Nat} {tokens rest : List Lexeme} {nodes : List Node} {es : List Expr}
    (h : readItems expression rounds tokens = .ok (nodes, rest))
    (hes : Expr.ofPhrases (nodes.map Node.phrase) = .ok es) :
    nodes.map Node.height = es.map Expr.height ∧
      ∃ used, tokens = used ++ rest ∧ DerivesItems (used.map Lexeme.token) es := by
  induction rounds generalizing tokens nodes es with
  | zero => cases h
  | succ rounds ih =>
    unfold readItems at h
    split at h
    · rename_i offset tail
      cases h
      cases hes
      exact ⟨rfl, [⟨.rightBracket, offset⟩], rfl, .none⟩
    · cases h
    split at h
    · cases h
    · rename_i item offset behind hitem
      split at h
      · cases h
      rename_i items tail hitems
      cases h
      simp only [List.map_cons, Expr.ofPhrases] at hes
      split at hes
      · cases hes
      rename_i e he
      split at hes
      · cases hes
      rename_i es hes'
      cases hes
      obtain ⟨⟨used, rfl, hderives⟩, hheight, -⟩ := hexpression _ _ _ _ hitem he
      obtain ⟨hheights, used', rfl, hderives'⟩ := ih hitems hes'
      refine ⟨by simp [hheight, hheights], used ++ ⟨.comma, offset⟩ :: used', by simp, ?_⟩
      rw [List.map_append, List.map_cons]
      exact .more hderives hderives'
    · rename_i item behind _ hitem
      split at h
      · cases h
      rename_i tail hclose
      cases h
      simp only [List.map_cons, List.map_nil, Expr.ofPhrases] at hes
      split at hes
      · cases hes
      rename_i e he
      cases hes
      obtain ⟨offset, rfl⟩ := expect_ok hclose
      obtain ⟨⟨used, rfl, hderives⟩, hheight, -⟩ := hexpression _ _ _ _ hitem he
      refine ⟨by simp [hheight], used ++ [⟨.rightBracket, offset⟩], by simp, ?_⟩
      rw [List.map_append, List.map_cons, List.map_nil]
      exact .one hderives

theorem SoundReader.primary {expression : Reader Node} (hexpression : SoundReader .or expression) :
    SoundReader .atom (readPrimary expression) := by
  intro tokens rest node e h he
  cases tokens with
  | nil => cases h
  | cons l ls =>
    obtain ⟨token, offset⟩ := l
    have hone : 1 ≤ maxHeight := by decide
    cases token with
    | number x =>
      cases h
      cases he
      exact ⟨⟨[_], rfl, .number x⟩, rfl, hone⟩
    | column word =>
      cases h
      cases he
      exact ⟨⟨[_], rfl, .column word⟩, rfl, hone⟩
    | name | quotation =>
      cases h
      cases he
    | leftParen =>
      simp only [readPrimary] at h
      split at h
      · cases h
      rename_i inside behind hinside
      split at h
      · cases h
      rename_i tail hclose
      cases h
      obtain ⟨offset', rfl⟩ := expect_ok hclose
      obtain ⟨⟨used, rfl, hderives⟩, hheight, hbounded⟩ := hexpression _ _ _ _ hinside he
      refine ⟨⟨⟨.leftParen, offset⟩ :: (used ++ [⟨.rightParen, offset'⟩]), by simp, ?_⟩, hheight,
        hbounded⟩
      rw [List.map_cons, List.map_append]
      exact .group hderives
    | leftBracket =>
      simp only [readPrimary] at h
      split at h
      · cases h
      rename_i items behind hitems
      split at h
      · cases h
      rename_i list hlist
      cases h
      obtain ⟨rfl, hbounded⟩ := branch_ok hlist
      simp only [Expr.ofPhrase] at he
      split at he
      · cases he
      rename_i es hes
      cases he
      obtain ⟨hheights, used, rfl, hderives⟩ := readItems_ok hexpression hitems hes
      have hlength : items.length = es.length := by simpa using congrArg List.length hheights
      rw [foldl_max_height hheights, hlength, Nat.zero_max] at hbounded ⊢
      exact ⟨⟨⟨.leftBracket, offset⟩ :: used, rfl, .list hderives⟩, rfl, hbounded⟩
    | symbol | rightParen | rightBracket | comma | semicolon => cases h

theorem SoundReader.suffixed {expression : Reader Node} (hexpression : SoundReader .or expression) :
    SoundReader .atom (readPostfix expression) := by
  intro tokens rest node e h he
  unfold readPostfix at h
  split at h
  · cases h
  rename_i first behind hfirst
  rcases readSuffixes_ok h with ⟨rfl, rfl⟩ | ⟨construct, hforeign⟩
  · exact hexpression.primary _ _ _ _ hfirst he
  · rw [hforeign] at he
    cases he

theorem SoundReader.operand {readers : Readers}
    (h : SoundReader .or (readAssignment readers)) : SoundReader .atom (readOperand readers) := by
  intro tokens rest node e hread he
  unfold readOperand at hread
  split at hread
  · exact h.suffixed _ _ _ _ hread he
  · split at hread
    · cases hread
    · cases hread
      cases he

theorem precedence?_le {op : Symbol} {p : Nat} (h : op.precedence? = some p) : p ≤ 12 := by
  cases op <;> cases h <;> decide

theorem Takes.join {c : Connective} {tokens middle rest : List Lexeme} {left right node : Node}
    {l r : Expr} {offset : Nat}
    (hl : Takes c.level tokens (⟨.symbol c.symbol, offset⟩ :: middle) left l)
    (hr : Takes c.level.tighter middle rest right r)
    (hnode : Node.branch (Phrase.join c.symbol left.phrase right.phrase)
      (max left.height right.height) = .ok node) :
    Takes c.level tokens rest node (c.join l r) := by
  obtain ⟨⟨used, rfl, hderivesl⟩, hheightl, -⟩ := hl
  obtain ⟨⟨used', rfl, hderivesr⟩, hheightr, -⟩ := hr
  obtain ⟨rfl, hbounded⟩ := branch_ok hnode
  have hheight := c.height_join l r
  constructor
  · refine ⟨used ++ ⟨.symbol c.symbol, offset⟩ :: used', by simp, ?_⟩
    rw [List.map_append, List.map_cons]
    exact .chain c hderivesl hderivesr
  · simp only
    omega
  · omega

/-- The loop over operators keeps what stands on its left, so that is an expression if the
whole is. -/
theorem left_of_climb {right : Nat → Reader Node} {floor rounds : Nat} {left node : Node}
    {tokens rest : List Lexeme} {e : Expr}
    (h : climb right floor rounds left tokens = .ok (node, rest))
    (he : Expr.ofPhrase node.phrase = .ok e) : ∃ l, Expr.ofPhrase left.phrase = .ok l := by
  induction rounds generalizing left tokens with
  | zero =>
    cases h
    exact ⟨e, he⟩
  | succ rounds ih =>
    unfold climb at h
    split at h
    · split at h
      · split at h
        · cases h
          exact ⟨e, he⟩
        split at h
        · cases h
        split at h
        · cases h
        rename_i joined hjoined
        obtain ⟨j, hj⟩ := ih h
        rw [(branch_ok hjoined).1] at hj
        obtain ⟨-, l, -, -, -, hl, -⟩ := connective_of_join hj
        exact ⟨l, hl⟩
      · cases h
        exact ⟨e, he⟩
    · cases h
      exact ⟨e, he⟩

theorem Takes.congr {level : Level} {tokens rest : List Lexeme} {node : Node} {l e : Expr}
    (h : Takes level tokens rest node l) (hl : Expr.ofPhrase node.phrase = .ok l)
    (he : Expr.ofPhrase node.phrase = .ok e) : Takes level tokens rest node e := by
  rw [hl] at he
  cases he
  exact h

/-- A round of the loop. The right operand is read to where no operator binds tighter than the one
in front of it, so the joined node again stands at a level above which no operator follows. -/
theorem Takes.round {readers : Readers} (hreaders : SoundReaders readers) {op : Symbol}
    {p offset : Nat} {left right joined : Node} {start middle behind : List Lexeme} {l j : Expr}
    {level : Level} (hop : op.precedence? = some p)
    (htakes : Takes level start (⟨.symbol op, offset⟩ :: middle) left l)
    (hbelow : Below (level.precedence + 1) (⟨.symbol op, offset⟩ :: middle))
    (hright : readers.binary (if op = .power then p else p + 1) middle = .ok (right, behind))
    (hjoined : Node.branch (Phrase.join op left.phrase right.phrase)
      (max left.height right.height) = .ok joined)
    (hl : Expr.ofPhrase left.phrase = .ok l) (hj : Expr.ofPhrase joined.phrase = .ok j) :
    ∃ level : Level, p = level.precedence ∧ Takes level start behind joined j ∧
      Below (level.precedence + 1) behind ∧ behind.length ≤ middle.length := by
  rw [(branch_ok hjoined).1] at hj
  obtain ⟨c, l', r, rfl, rfl, hl', hr⟩ := connective_of_join hj
  rw [c.precedence?_symbol] at hop
  cases hop
  rw [if_neg c.symbol_ne_power] at hright
  obtain ⟨hbehind, tight, htight, htakesr⟩ :=
    hreaders.binary _ _ _ _ _ (Nat.succ_le_succ c.precedence_le) hright hr
  have hlevel := Nat.le_of_lt_succ (hbelow _ _ _ _ rfl c.precedence?_symbol)
  have htakesl : Takes c.level start _ left l' := (htakes.congr hl hl').loosen hlevel
  have htakesr' := htakesr.loosen (Level.tighter_le htight).2
  have hlength : behind.length ≤ middle.length := by
    obtain ⟨⟨used, rfl, -⟩, -, -⟩ := htakesr
    rw [List.length_append]
    omega
  exact ⟨c.level, rfl, htakesl.join htakesr' hjoined, hbehind, hlength⟩

theorem climb_takes {readers : Readers} (hreaders : SoundReaders readers)
    {floor rounds : Nat} {left node : Node} {start tokens rest : List Lexeme} {l e : Expr}
    {level : Level} (hrounds : tokens.length ≤ rounds)
    (h : climb readers.binary floor rounds left tokens = .ok (node, rest))
    (he : Expr.ofPhrase node.phrase = .ok e) (hl : Expr.ofPhrase left.phrase = .ok l)
    (hfloor : floor ≤ level.precedence) (htakes : Takes level start tokens left l)
    (hbelow : Below (level.precedence + 1) tokens) :
    Below floor rest ∧ ∃ level : Level, floor ≤ level.precedence ∧ Takes level start rest node e := by
  induction rounds generalizing left tokens l level with
  | zero =>
    obtain rfl := List.eq_nil_of_length_eq_zero (Nat.le_zero.mp hrounds)
    cases h
    constructor
    · intro op offset rest p heq
      cases heq
    · exact ⟨level, hfloor, htakes.congr hl he⟩
  | succ rounds ih =>
    unfold climb at h
    split at h
    · rename_i op offset middle
      split at h
      · rename_i p hop
        split at h
        · rename_i hp
          cases h
          constructor
          · apply below_symbol
            intro q hq
            rw [hop] at hq
            cases hq
            exact hp
          · exact ⟨level, hfloor, htakes.congr hl he⟩
        rename_i hp
        split at h
        · cases h
        rename_i right behind hright
        split at h
        · cases h
        rename_i joined hjoined
        obtain ⟨j, hj⟩ := left_of_climb h he
        obtain ⟨level', rfl, htakes', hbelow', hlength⟩ :=
          htakes.round hreaders hop hbelow hright hjoined hl hj
        rw [List.length_cons] at hrounds
        have hbehind : behind.length ≤ rounds := by omega
        exact ih hbehind h hj (Nat.le_of_not_lt hp) htakes' hbelow'
      · rename_i hop
        cases h
        constructor
        · apply below_symbol
          intro q hq
          rw [hop] at hq
          cases hq
        · exact ⟨level, hfloor, htakes.congr hl he⟩
    · rename_i hnosymbol
      cases h
      constructor
      · intro op offset rest' p heq
        exact absurd heq (hnosymbol op offset rest')
      · exact ⟨level, hfloor, htakes.congr hl he⟩

section Readers

variable {readers : Readers} (hreaders : SoundReaders readers)
include hreaders

theorem SoundReaders.readBinary {floor : Nat} {tokens rest : List Lexeme} {node : Node} {e : Expr}
    (hfloor : floor ≤ 12) (h : readBinary readers floor tokens = .ok (node, rest))
    (he : Expr.ofPhrase node.phrase = .ok e) :
    Below floor rest ∧ ∃ level : Level, floor ≤ level.precedence ∧
      Takes level tokens rest node e := by
  unfold Phrase.readBinary at h
  split at h
  · cases h
  rename_i left behind hleft
  obtain ⟨l, hl⟩ := left_of_climb h he
  have htakes := hreaders.operand _ _ _ _ hleft hl
  have hatom : floor ≤ Level.atom.precedence := hfloor
  have hbelow : Below (Level.atom.precedence + 1) behind := by
    intro op offset rest' p heq hp
    exact Nat.lt_succ_of_le (precedence?_le hp)
  exact climb_takes hreaders (Nat.le_refl _) h he hl hatom htakes hbelow

theorem SoundReaders.readConditional : SoundReader .or (readConditional readers) := by
  intro tokens rest node e h he
  unfold Phrase.readConditional at h
  split at h
  · cases h
  rename_i test behind htest
  split at h
  · cases h
    obtain ⟨-, level, -, htakes⟩ := hreaders.readBinary (Nat.zero_le _) htest he
    exact htakes.loosen level.or_le
  · split at h
    · cases h
    split at h
    · cases h
    split at h
    · cases h
    cases h
    cases he

theorem SoundReaders.readAssignment : SoundReader .or (readAssignment readers) := by
  intro tokens rest node e h he
  unfold Phrase.readAssignment at h
  split at h
  · cases h
  rename_i target behind htarget
  split at h
  · cases h
    exact hreaders.readConditional _ _ _ _ htarget he
  · split at h
    · cases h
    cases h
    cases he

theorem SoundReaders.around : SoundReaders readers.around where
  operand := hreaders.readAssignment.operand
  binary _ _ _ _ _ hfloor h he := hreaders.readBinary hfloor h he
  assignment := hreaders.readAssignment

end Readers

theorem SoundReaders.within (room : Nat) : SoundReaders (Readers.within room) := by
  induction room with
  | zero =>
    constructor
    · intro tokens rest node e h
      cases h
    · intro floor tokens rest node e hfloor h
      cases h
    · intro tokens rest node e h
      cases h
  | succ room ih => exact ih.around

end ColumnRules
