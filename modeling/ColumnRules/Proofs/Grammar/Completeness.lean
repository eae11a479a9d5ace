import ColumnRules.Parse
import ColumnRules.Proofs.Expr.Shape
import ColumnRules.Proofs.Grammar.Derivation

/-!
# What the grammar derives is read

Derived tokens are read as the phrase of their expression, or the reading is given up as too deep.
The statements say how much room a reading needs and which height it builds, so that they also
tell when a reading is not given up. They are closed under the productions of the grammar.
-/

set_option autoImplicit false

namespace ColumnRules

open Phrase

/-- The phrase means the expression, unless the expression compares conditions. -/
structure Lowers (phrase : Phrase) (e : Expr) : Prop where
  value : Expr.ofPhrase phrase =
    if e.comparesValues = true then .ok e else .error .chainedComparison
  condition : phrase.isCondition = e.isCondition

def LowersAll (phrases : List Phrase) (es : List Expr) : Prop :=
  Expr.ofPhrases phrases =
    if Expr.allCompareValues es = true then .ok es else .error .chainedComparison

namespace Lowers

theorem number (x : Binary64) : Lowers (.number x) (.literal x) := ⟨rfl, rfl⟩

theorem column (word : String) : Lowers (.column word) (.var word) := ⟨rfl, rfl⟩

theorem nil : LowersAll [] [] := rfl

theorem cons {phrase : Phrase} {phrases : List Phrase} {e : Expr} {es : List Expr}
    (h : Lowers phrase e) (hs : LowersAll phrases es) : LowersAll (phrase :: phrases) (e :: es) := by
  unfold LowersAll at hs ⊢
  rw [Expr.ofPhrases, h.value, hs, Expr.allCompareValues]
  cases e.comparesValues with
  | false => rfl
  | true => cases Expr.allCompareValues es <;> rfl

theorem list {phrases : List Phrase} {es : List Expr} (h : LowersAll phrases es) :
    Lowers (.list phrases) (.sequence es) := by
  refine ⟨?_, rfl⟩
  rw [Expr.ofPhrase, h, Expr.comparesValues]
  cases Expr.allCompareValues es <;> rfl

theorem join (c : Connective) {p q : Phrase} {l r : Expr} (hl : Lowers p l) (hr : Lowers q r) :
    Lowers (Phrase.join c.symbol p q) (c.join l r) := by
  cases c with
  | binary op =>
    have hjoin : Phrase.join (Connective.binary op).symbol p q =
        .binary (Connective.binary op).symbol p q := by
      rw [Phrase.join, Connective.not_isLogical_symbol]
      rfl
    rw [hjoin, Connective.join]
    constructor
    · rw [Expr.ofPhrase, Connective.binary?_symbol]
      simp only [hl.condition, hr.condition, hl.value, hr.value, Expr.comparesValues]
      by_cases hchained : (op.isComparison && (l.isCondition || r.isCondition)) = true
      · simp only [hchained, Bool.not_true, Bool.false_and, Bool.false_eq_true, if_true, if_false]
      · by_cases hlv : l.comparesValues = true <;> by_cases hrv : r.comparesValues = true <;>
          simp [hchained, hlv, hrv]
    · rw [Phrase.isCondition, Connective.binary?_symbol]
      rfl
  | logical op =>
    have hjoin : Phrase.join (Connective.logical op).symbol p q =
        .logical (Connective.logical op).symbol p q := by
      rw [Phrase.join, Connective.isLogical_symbol]
      rfl
    rw [hjoin, Connective.join]
    constructor
    · rw [Expr.ofPhrase, Connective.logical?_symbol]
      simp only [hl.value, hr.value, Expr.comparesValues, Expr.allCompareValues]
      by_cases hlv : l.comparesValues = true <;> by_cases hrv : r.comparesValues = true <;>
        simp [hlv, hrv]
    · rw [Phrase.isCondition, Connective.logical?_symbol]
      rfl

end Lowers

/-- What may stand behind an operand whose chain binds no tighter than `p`: nothing, a closing
token, a separator or an operator that binds at most as tightly. -/
def Follows (p : Nat) : List Lexeme → Prop
  | [] => True
  | l :: _ =>
    match l.token with
    | .symbol op => ∃ q, op.precedence? = some q ∧ q ≤ p
    | .rightParen | .rightBracket | .comma | .semicolon => True
    | _ => False

theorem Follows.mono {p q : Nat} {ls : List Lexeme} (h : Follows p ls) (hpq : p ≤ q) :
    Follows q ls := by
  cases ls with
  | nil => trivial
  | cons l ls =>
    obtain ⟨token, offset⟩ := l
    cases token with
    | symbol op =>
      obtain ⟨r, hr, hle⟩ := h
      exact ⟨r, hr, Nat.le_trans hle hpq⟩
    | rightParen | rightBracket | comma | semicolon => trivial
    | column | name | number | quotation | leftParen | leftBracket => exact h

theorem precedence?_pos {op : Symbol} {p : Nat} (h : op.precedence? = some p) : 0 < p := by
  cases op <;> cases h <;> decide

/-- A chain ends in front of what may follow it. -/
theorem climb_of_follows {right : Nat → Reader Node} {floor p rounds : Nat} {node : Node}
    {rest : List Lexeme} (h : Follows p rest) (hp : p < floor ∨ p = 0) :
    climb right floor rounds node rest = .ok (node, rest) := by
  cases rounds with
  | zero => rfl
  | succ rounds =>
    cases rest with
    | nil => rfl
    | cons l ls =>
      obtain ⟨token, offset⟩ := l
      cases token with
      | symbol op =>
        obtain ⟨q, hq, hle⟩ := h
        have hpos := precedence?_pos hq
        have hlt : q < floor := by omega
        simp only [climb, hq, if_pos hlt]
      | rightParen | rightBracket | comma | semicolon => rfl
      | column | name | number | quotation | leftParen | leftBracket => exact absurd h id

theorem readSuffixes_of_follows {expression : Reader Node} {p rounds : Nat} {node : Node}
    {rest : List Lexeme} (h : Follows p rest) :
    readSuffixes expression rounds node rest = .ok (node, rest) := by
  cases rounds with
  | zero => rfl
  | succ rounds =>
    cases rest with
    | nil => rfl
    | cons l ls =>
      obtain ⟨token, offset⟩ := l
      cases token with
      | symbol op =>
        obtain ⟨q, hq, -⟩ := h
        cases op <;> cases hq <;> rfl
      | rightParen | rightBracket | comma | semicolon => rfl
      | column | name | number | quotation | leftParen | leftBracket => exact absurd h id

theorem frontSymbol?_of_follows {accepts : Symbol → Bool} {rest : List Lexeme}
    (h : Follows 0 rest) : frontSymbol? accepts rest = none := by
  cases rest with
  | nil => rfl
  | cons l ls =>
    obtain ⟨token, offset⟩ := l
    cases token with
    | symbol op =>
      obtain ⟨q, hq, hle⟩ := h
      have := precedence?_pos hq
      omega
    | _ => rfl

def Token.opens : Token → Bool
  | number _ | column _ | leftParen | leftBracket => true
  | _ => false

def Starts (ts : List Token) : Prop := ∃ t us, ts = t :: us ∧ t.opens = true

/-- Reading the tokens at a level leads into the loop over the operators behind them, with the
node on the left. Otherwise it is too deep, and then it lacks room or the node is too high. -/
def Resumes (level : Level) (ts : List Token) (node : Node) (need : Nat) : Prop :=
  ∀ (room floor : Nat) (ls rest : List Lexeme), ls.map Lexeme.token = ts →
    floor ≤ level.precedence → Follows level.precedence rest →
    (readBinary (Readers.within room) floor (ls ++ rest) = .error tooDeep ∧
      (room < need ∨ maxHeight < node.height)) ∨
    ∃ rounds, rest.length ≤ rounds ∧ readBinary (Readers.within room) floor (ls ++ rest) =
      climb (Readers.within room).binary floor rounds node rest

/-- The same for the items of a list, which end with their bracket. -/
def ItemsResume (ts : List Token) (nodes : List Node) (need : Nat) : Prop :=
  ∀ (room rounds : Nat) (ls rest : List Lexeme), ls.map Lexeme.token = ts → ls.length ≤ rounds →
    (readItems (readAssignment (Readers.within room)) rounds (ls ++ rest) = .error tooDeep ∧
      (room < need ∨ ∃ node ∈ nodes, maxHeight < node.height)) ∨
    readItems (readAssignment (Readers.within room)) rounds (ls ++ rest) = .ok (nodes, rest)

/-- The tokens are read as the expression, given room for that many readings inside one another. -/
def Reads (level : Level) (ts : List Token) (e : Expr) (need : Nat) : Prop :=
  Starts ts ∧ ∃ phrase, Lowers phrase e ∧ Resumes level ts ⟨phrase, e.height⟩ need

def ReadsItems (ts : List Token) (es : List Expr) (need : Nat) : Prop :=
  ∃ nodes : List Node, LowersAll (nodes.map Node.phrase) es ∧
    nodes.map Node.height = es.map Expr.height ∧ ItemsResume ts nodes need

/-- In front of a token that closes it, a whole expression is read to its end. -/
theorem Resumes.assignment {ts : List Token} {node : Node} {need : Nat}
    (h : Resumes .or ts node need) (room : Nat) {ls : List Lexeme} (rest : List Lexeme)
    (hls : ls.map Lexeme.token = ts) (hrest : Follows 0 rest) :
    (readAssignment (Readers.within room) (ls ++ rest) = .error tooDeep ∧
      (room < need ∨ maxHeight < node.height)) ∨
    readAssignment (Readers.within room) (ls ++ rest) = .ok (node, rest) := by
  rcases h room 0 ls rest hls (Nat.zero_le _) (hrest.mono (Nat.zero_le _)) with
    ⟨herror, hwhy⟩ | ⟨rounds, -, hread⟩
  · refine .inl ⟨?_, hwhy⟩
    simp only [readAssignment, readConditional, herror]
  · apply Or.inr
    rw [climb_of_follows hrest (.inr rfl)] at hread
    simp only [readAssignment, readConditional, hread, frontSymbol?_of_follows hrest]

/-- An operand that its first token tells apart is read by the reader of operands. -/
theorem Resumes.of_primary {ts : List Token} {node : Node} {need : Nat} (hstart : Starts ts)
    (h : ∀ (room : Nat) (ls rest : List Lexeme), ls.map Lexeme.token = ts →
      (readPrimary (readAssignment (Readers.within room)) (ls ++ rest) = .error tooDeep ∧
        (room < need ∨ maxHeight < node.height)) ∨
      readPrimary (readAssignment (Readers.within room)) (ls ++ rest) = .ok (node, rest)) :
    Resumes .atom ts node (need + 1) := by
  intro room floor ls rest hls hfloor hrest
  cases room with
  | zero => exact .inl ⟨rfl, .inl (Nat.succ_pos need)⟩
  | succ room =>
    have hfront : frontSymbol? (fun op => op.isUnary || op.isUpdate) (ls ++ rest) = none := by
      obtain ⟨t, us, rfl, ht⟩ := hstart
      obtain ⟨l, ls', rfl, rfl, -⟩ := List.map_eq_cons_iff.mp hls
      obtain ⟨token, offset⟩ := l
      cases token with
      | number | column | leftParen | leftBracket => rfl
      | _ => cases ht
    have hoperand : (Readers.within (room + 1)).operand (ls ++ rest) =
        readPostfix (readAssignment (Readers.within room)) (ls ++ rest) := by
      simp only [Readers.within, Readers.around, readOperand, hfront]
    rcases h room ls rest hls with ⟨herror, hwhy⟩ | hread
    · apply Or.inl
      constructor
      · simp only [readBinary, hoperand, readPostfix, herror]
      · exact hwhy.imp_left Nat.succ_lt_succ
    · refine .inr ⟨rest.length, Nat.le_refl _, ?_⟩
      simp only [readBinary, hoperand, readPostfix, hread, readSuffixes_of_follows hrest]

theorem Reads.number (x : Binary64) : Reads .atom [.number x] (.literal x) 1 := by
  have hstart : Starts [.number x] := ⟨_, _, rfl, rfl⟩
  refine ⟨hstart, _, Lowers.number x, Resumes.of_primary hstart ?_⟩
  intro room ls rest hls
  obtain ⟨l, ls', rfl, hl, hnil⟩ := List.map_eq_cons_iff.mp hls
  obtain rfl := List.map_eq_nil_iff.mp hnil
  apply Or.inr
  simp only [List.cons_append, List.nil_append, readPrimary, hl]
  rfl

theorem Reads.column (word : String) : Reads .atom [.column word] (.var word) 1 := by
  have hstart : Starts [.column word] := ⟨_, _, rfl, rfl⟩
  refine ⟨hstart, _, Lowers.column word, Resumes.of_primary hstart ?_⟩
  intro room ls rest hls
  obtain ⟨l, ls', rfl, hl, hnil⟩ := List.map_eq_cons_iff.mp hls
  obtain rfl := List.map_eq_nil_iff.mp hnil
  apply Or.inr
  simp only [List.cons_append, List.nil_append, readPrimary, hl]
  rfl

theorem expect_cons {token : Token} {l : Lexeme} (h : l.token = token) (rest : List Lexeme) :
    expect token (l :: rest) = .ok rest := if_pos h

theorem Reads.group {ts : List Token} {e : Expr} {need : Nat} (h : Reads .or ts e need) :
    Reads .atom (.leftParen :: (ts ++ [.rightParen])) e (need + 1) := by
  obtain ⟨-, phrase, hlowers, hresumes⟩ := h
  have hstart : Starts (.leftParen :: (ts ++ [.rightParen])) := ⟨_, _, rfl, rfl⟩
  refine ⟨hstart, phrase, hlowers, Resumes.of_primary hstart ?_⟩
  intro room ls rest hls
  obtain ⟨l, ls', rfl, hl, hrest⟩ := List.map_eq_cons_iff.mp hls
  obtain ⟨inside, closing, rfl, hinside, hclosing⟩ := List.map_eq_append_iff.mp hrest
  obtain ⟨r, rs, rfl, hr, hnil⟩ := List.map_eq_cons_iff.mp hclosing
  obtain rfl := List.map_eq_nil_iff.mp hnil
  have hfollows : Follows 0 (r :: rest) := by simp only [Follows, hr]
  have hsplit : l :: (inside ++ [r]) ++ rest = l :: (inside ++ r :: rest) := by simp
  rw [hsplit]
  rcases hresumes.assignment room _ hinside hfollows with ⟨herror, hwhy⟩ | hread
  · refine .inl ⟨?_, hwhy⟩
    simp only [readPrimary, hl, herror]
  · apply Or.inr
    simp only [readPrimary, hl, hread, expect_cons hr]

theorem Reads.operand {level : Level} {ts : List Token} {e : Expr} {need : Nat}
    (h : Reads level.tighter ts e need) : Reads level ts e need := by
  obtain ⟨hstart, phrase, hlowers, hresumes⟩ := h
  refine ⟨hstart, phrase, hlowers, ?_⟩
  intro room floor ls rest hls hfloor hrest
  have hle := level.precedence_le_tighter
  exact hresumes room floor ls rest hls (Nat.le_trans hfloor hle) (hrest.mono hle)

theorem Connective.height_join (c : Connective) (l r : Expr) :
    (c.join l r).height = max l.height r.height + 1 := by
  cases c with
  | binary => rfl
  | logical =>
    simp only [Connective.join, Expr.height, Expr.tallest]
    omega

theorem climb_chain (c : Connective) {right : Nat → Reader Node} {floor rounds : Nat}
    (hfloor : floor ≤ c.level.precedence) (node : Node) (offset : Nat) (ls : List Lexeme) :
    climb right floor (rounds + 1) node (⟨.symbol c.symbol, offset⟩ :: ls) =
      match right (c.level.precedence + 1) ls with
      | .error e => .error e
      | .ok (operand, rest) =>
        match Node.branch (Phrase.join c.symbol node.phrase operand.phrase)
            (max node.height operand.height) with
        | .error e => .error e
        | .ok node => climb right floor rounds node rest := by
  have hnext : (if c.symbol = .power then c.level.precedence else c.level.precedence + 1) =
      c.level.precedence + 1 := if_neg c.symbol_ne_power
  rw [climb, c.precedence?_symbol]
  refine (if_neg (Nat.not_lt.mpr hfloor)).trans ?_
  generalize (if c.symbol = .power then _ else _) = next at hnext ⊢
  subst hnext
  rfl

theorem Reads.chain (c : Connective) {ls rs : List Token} {l r : Expr} {m n : Nat}
    (hl : Reads c.level ls l m) (hr : Reads c.level.tighter rs r n) :
    Reads c.level (ls ++ .symbol c.symbol :: rs) (c.join l r) (max m (n + 1)) := by
  obtain ⟨⟨t, us, rfl, ht⟩, p, hlowersl, hresumesl⟩ := hl
  obtain ⟨-, q, hlowersr, hresumesr⟩ := hr
  refine ⟨⟨t, _, rfl, ht⟩, _, hlowersl.join c hlowersr, ?_⟩
  intro room floor lexemes rest hlexemes hfloor hrest
  obtain ⟨left, others, rfl, hleft, hothers⟩ := List.map_eq_append_iff.mp hlexemes
  obtain ⟨⟨token, offset⟩, right, rfl, rfl, hright⟩ := List.map_eq_cons_iff.mp hothers
  have hsplit : left ++ ⟨.symbol c.symbol, offset⟩ :: right ++ rest =
      left ++ ⟨.symbol c.symbol, offset⟩ :: (right ++ rest) := by simp
  have hfollows : Follows c.level.precedence (⟨.symbol c.symbol, offset⟩ :: (right ++ rest)) :=
    ⟨_, c.precedence?_symbol, Nat.le_refl _⟩
  have htight := c.precedence_lt_tighter
  rw [hsplit, Connective.height_join]
  rcases hresumesl room floor left _ hleft hfloor hfollows with ⟨herror, hwhy⟩ |
    ⟨rounds, hrounds, hread⟩
  · refine .inl ⟨herror, ?_⟩
    simp only at hwhy ⊢
    omega
  rw [hread]
  obtain ⟨rounds, rfl⟩ : ∃ k, rounds = k + 1 := by
    cases rounds with
    | zero => exact absurd hrounds (Nat.not_succ_le_zero _)
    | succ k => exact ⟨k, rfl⟩
  rw [climb_chain c hfloor]
  cases room with
  | zero => exact .inl ⟨rfl, .inl (by omega)⟩
  | succ room =>
    rcases hresumesr room (c.level.precedence + 1) right rest hright htight
      (hrest.mono (Nat.le_of_lt htight)) with ⟨herror, hwhy⟩ | ⟨inner, -, hread⟩
    · apply Or.inl
      constructor
      · simp only [Readers.within, Readers.around, herror]
      · simp only at hwhy ⊢
        omega
    rw [climb_of_follows hrest (.inl (Nat.lt_succ_self _))] at hread
    have hbinary : (Readers.within (room + 1)).binary = readBinary (Readers.within room) := rfl
    simp only [hbinary, hread, Node.branch]
    by_cases hheight : maxHeight < max l.height r.height + 1
    · exact .inl ⟨by simp only [if_pos hheight], .inr hheight⟩
    · refine .inr ⟨rounds, ?_, by simp only [if_neg hheight]⟩
      simp only [List.length_cons, List.length_append] at hrounds
      omega

theorem ReadsItems.none : ReadsItems [.rightBracket] [] 0 := by
  refine ⟨[], Lowers.nil, rfl, ?_⟩
  intro room rounds ls rest hls hrounds
  obtain ⟨⟨token, offset⟩, ls', rfl, rfl, hnil⟩ := List.map_eq_cons_iff.mp hls
  obtain rfl := List.map_eq_nil_iff.mp hnil
  obtain ⟨rounds, rfl⟩ : ∃ k, rounds = k + 1 := ⟨rounds - 1, by simp at hrounds; omega⟩
  exact .inr rfl

/-- A list goes on with an item unless it closes or a comma stands in the place of the item. -/
theorem readItems_of_starts {expression : Reader Node} {rounds : Nat} {ls rest : List Lexeme}
    (h : Starts (ls.map Lexeme.token)) :
    readItems expression (rounds + 1) (ls ++ rest) =
      match expression (ls ++ rest) with
      | .error e => .error e
      | .ok (item, ⟨.comma, _⟩ :: rest) =>
        match readItems expression rounds rest with
        | .error e => .error e
        | .ok (items, rest) => .ok (item :: items, rest)
      | .ok (item, rest) =>
        match expect .rightBracket rest with
        | .error e => .error e
        | .ok rest => .ok ([item], rest) := by
  obtain ⟨t, us, hls, ht⟩ := h
  obtain ⟨⟨token, offset⟩, ls', rfl, rfl, -⟩ := List.map_eq_cons_iff.mp hls
  cases token with
  | number | column | leftParen | leftBracket => rfl
  | _ => cases ht

theorem ReadsItems.one {ts : List Token} {e : Expr} {need : Nat} (h : Reads .or ts e need) :
    ReadsItems (ts ++ [.rightBracket]) [e] need := by
  obtain ⟨hstart, phrase, hlowers, hresumes⟩ := h
  refine ⟨[⟨phrase, e.height⟩], hlowers.cons Lowers.nil, rfl, ?_⟩
  intro room rounds ls rest hls hrounds
  obtain ⟨inside, closing, rfl, hinside, hclosing⟩ := List.map_eq_append_iff.mp hls
  obtain ⟨⟨token, offset⟩, rs, rfl, rfl, hnil⟩ := List.map_eq_cons_iff.mp hclosing
  obtain rfl := List.map_eq_nil_iff.mp hnil
  obtain ⟨rounds, rfl⟩ : ∃ k, rounds = k + 1 := ⟨rounds - 1, by simp at hrounds; omega⟩
  have hsplit : inside ++ [⟨.rightBracket, offset⟩] ++ rest =
      inside ++ ⟨.rightBracket, offset⟩ :: rest := by simp
  rw [hsplit, readItems_of_starts (hinside ▸ hstart)]
  rcases hresumes.assignment room (⟨.rightBracket, offset⟩ :: rest) hinside trivial with
    ⟨herror, hwhy⟩ | hread
  · exact .inl ⟨by rw [herror], hwhy.imp_right fun h => ⟨_, List.mem_singleton_self _, h⟩⟩
  · exact .inr (by rw [hread]; rfl)

theorem ReadsItems.more {ts us : List Token} {e : Expr} {es : List Expr} {m n : Nat}
    (h : Reads .or ts e m) (hs : ReadsItems us es n) :
    ReadsItems (ts ++ .comma :: us) (e :: es) (max m n) := by
  obtain ⟨hstart, phrase, hlowers, hresumes⟩ := h
  obtain ⟨nodes, hlowersAll, hheights, hitems⟩ := hs
  refine ⟨⟨phrase, e.height⟩ :: nodes, hlowers.cons hlowersAll, by simp [hheights], ?_⟩
  intro room rounds ls rest hls hrounds
  obtain ⟨inside, others, rfl, hinside, hothers⟩ := List.map_eq_append_iff.mp hls
  obtain ⟨⟨token, offset⟩, rs, rfl, rfl, hrs⟩ := List.map_eq_cons_iff.mp hothers
  simp only [List.length_append, List.length_cons] at hrounds
  obtain ⟨rounds, rfl⟩ : ∃ k, rounds = k + 1 := ⟨rounds - 1, by omega⟩
  have hsplit : inside ++ ⟨.comma, offset⟩ :: rs ++ rest =
      inside ++ ⟨.comma, offset⟩ :: (rs ++ rest) := by simp
  rw [hsplit, readItems_of_starts (hinside ▸ hstart)]
  rcases hresumes.assignment room (⟨.comma, offset⟩ :: (rs ++ rest)) hinside trivial with
    ⟨herror, hwhy⟩ | hread
  · refine .inl ⟨by rw [herror], ?_⟩
    rcases hwhy with hroom | hheight
    · exact .inl (by omega)
    · exact .inr ⟨_, List.mem_cons_self, hheight⟩
  simp only [hread]
  rcases hitems room rounds rs rest hrs (by omega) with ⟨herror, hwhy⟩ | hread
  · refine .inl ⟨by simp only [herror], ?_⟩
    rcases hwhy with hroom | ⟨node, hnode, hheight⟩
    · exact .inl (by omega)
    · exact .inr ⟨node, List.mem_cons_of_mem _ hnode, hheight⟩
  · exact .inr (by simp only [hread])

theorem foldl_max_height {nodes : List Node} {es : List Expr}
    (h : nodes.map Node.height = es.map Expr.height) (start : Nat) :
    nodes.foldl (fun h n => max h n.height) start = max start (Expr.tallest es) := by
  induction nodes generalizing es start with
  | nil =>
    obtain rfl := List.map_eq_nil_iff.mp h.symm
    simp [Expr.tallest]
  | cons node nodes ih =>
    obtain ⟨e, es', rfl, he, hes⟩ := List.map_eq_cons_iff.mp h.symm
    rw [List.foldl_cons, ih hes.symm, Expr.tallest, he]
    omega

theorem Reads.list {ts : List Token} {es : List Expr} {need : Nat} (h : ReadsItems ts es need) :
    Reads .atom (.leftBracket :: ts) (.sequence es) (need + 1) := by
  obtain ⟨nodes, hlowers, hheights, hitems⟩ := h
  have hstart : Starts (.leftBracket :: ts) := ⟨_, _, rfl, rfl⟩
  have hlength : nodes.length = es.length := by
    simpa using congrArg List.length hheights
  refine ⟨hstart, _, Lowers.list hlowers, Resumes.of_primary hstart ?_⟩
  intro room ls rest hls
  obtain ⟨l, ls', rfl, hl, hls'⟩ := List.map_eq_cons_iff.mp hls
  have hrounds : ls'.length ≤ (ls' ++ rest).length + 1 := by
    rw [List.length_append]
    omega
  rcases hitems room _ ls' rest hls' hrounds with ⟨herror, hwhy⟩ | hread
  · apply Or.inl
    constructor
    · simp only [List.cons_append, readPrimary, hl, herror]
    · apply hwhy.imp_right
      rintro ⟨node, hnode, hheight⟩
      have hmem : node.height ∈ es.map Expr.height := hheights ▸ List.mem_map_of_mem hnode
      obtain ⟨e, he, heq⟩ := List.mem_map.mp hmem
      have := Expr.height_le_tallest he
      simp only [Expr.height]
      omega
  · have hbranch : Node.ofList nodes = Node.branch (.list (nodes.map Node.phrase))
        (Expr.tallest es + (es.length - 1)) := by
      rw [Node.ofList, foldl_max_height hheights, hlength, Nat.zero_max]
    simp only [List.cons_append, readPrimary, hl, hread, hbranch, Node.branch]
    by_cases hheight : maxHeight < Expr.tallest es + (es.length - 1) + 1
    · exact .inl ⟨by simp only [if_pos hheight], .inr hheight⟩
    · exact .inr (by simp only [if_neg hheight, Expr.height])

mutual

/-- Whatever the grammar derives is read: there is room enough for as many readings as there are
tokens. -/
theorem Derives.reads {level : Level} {ts : List Token} {e : Expr} :
    Derives level ts e → ∃ need, need ≤ ts.length ∧ Reads level ts e need
  | .number x => ⟨1, Nat.le_refl 1, Reads.number x⟩
  | .column word => ⟨1, Nat.le_refl 1, Reads.column word⟩
  | .group h => by
    obtain ⟨need, hneed, hreads⟩ := h.reads
    refine ⟨need + 1, ?_, hreads.group⟩
    simp only [List.length_cons, List.length_append]
    omega
  | .list h => by
    obtain ⟨need, hneed, hreads⟩ := h.reads
    exact ⟨need + 1, Nat.succ_le_succ hneed, Reads.list hreads⟩
  | .chain c hl hr => by
    obtain ⟨m, hm, hreadsl⟩ := hl.reads
    obtain ⟨n, hn, hreadsr⟩ := hr.reads
    refine ⟨max m (n + 1), ?_, Reads.chain c hreadsl hreadsr⟩
    simp only [List.length_cons, List.length_append]
    omega
  | .operand h => by
    obtain ⟨need, hneed, hreads⟩ := h.reads
    exact ⟨need, hneed, hreads.operand⟩

theorem DerivesItems.reads {ts : List Token} {es : List Expr} :
    DerivesItems ts es → ∃ need, need ≤ ts.length ∧ ReadsItems ts es need
  | .none => ⟨0, Nat.zero_le _, ReadsItems.none⟩
  | .one h => by
    obtain ⟨need, hneed, hreads⟩ := h.reads
    refine ⟨need, ?_, ReadsItems.one hreads⟩
    simp only [List.length_append]
    omega
  | .more h hs => by
    obtain ⟨m, hm, hreads⟩ := h.reads
    obtain ⟨n, hn, hreadsAll⟩ := hs.reads
    refine ⟨max m n, ?_, ReadsItems.more hreads hreadsAll⟩
    simp only [List.length_cons, List.length_append]
    omega

end

end ColumnRules
