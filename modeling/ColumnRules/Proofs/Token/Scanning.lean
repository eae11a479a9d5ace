import ColumnRules.Proofs.Grammar.Derivation
import ColumnRules.Proofs.Token.Splits
import ColumnRules.Render

/-!
# Cutting shown text

Shown text is cut into the tokens it was made of: brackets, operators between blanks, plain column
names and numerals. A minus is cut off as a sign only where an operand may start.
-/

set_option autoImplicit false

namespace ColumnRules

open Lexer

/-- The text is cut into these tokens, behind the character `before` and the token `last`. -/
def Scans (columns : List String) (before : Option Char) (last : Option Token) (s : List Char)
    (ts : List Token) : Prop :=
  ∀ offset, ∃ lexemes, scan (columns.map String.toList) 0 before last offset s = .ok lexemes ∧
    lexemes.map Lexeme.token = ts

theorem scan_skip (names : List (List Char)) (t rest : List Char) (before : Option Char)
    (last : Option Token) (offset : Nat) :
    ∃ offset', scan names t.length before last offset (t ++ rest) =
      scan names 0 (t.getLast?.or before) last offset' rest := by
  induction t generalizing before offset with
  | nil => exact ⟨offset, rfl⟩
  | cons c t ih =>
    obtain ⟨offset', h⟩ := ih (some c) (offset + c.utf8Size)
    exact ⟨offset', by rw [getLast?_cons_or, ← h]; rfl⟩

section Scanning

variable {columns : List String} {before : Option Char} {last : Option Token} {token : Token}
  {s t rest : List Char} {ts : List Token} {c : Char}

theorem Scans.nil : Scans columns before last [] [] :=
  fun _ => ⟨[], rfl, rfl⟩

theorem Scans.blank (h : Scans columns (some ' ') last s ts) :
    Scans columns before last (' ' :: s) ts :=
  fun offset => h (offset + ' '.utf8Size)

theorem Scans.cut (hblank : isBlank c = false)
    (hcut : ∀ offset, cutAt (columns.map String.toList) before last offset c (t ++ rest) =
      .ok ⟨token, t.length⟩)
    (hrest : Scans columns (c :: t).getLast? (some token) rest ts) :
    Scans columns before last (c :: t ++ rest) (token :: ts) := by
  intro offset
  obtain ⟨offset', hskip⟩ := scan_skip (columns.map String.toList) t rest (some c) (some token)
    (offset + c.utf8Size)
  have hlast : t.getLast?.or (some c) = (c :: t).getLast? := by
    rw [← getLast?_cons_or c t none, Option.or_none]
  obtain ⟨lexemes, hscan, htokens⟩ := hrest offset'
  refine ⟨⟨token, offset⟩ :: lexemes, ?_, by rw [List.map_cons, htokens]⟩
  rw [List.cons_append, scan, hblank, if_neg Bool.false_ne_true, hcut]
  simp only [hskip, hlast, hscan]

/-- The characters of shown text that belong to neither a name nor a number. -/
def marks : List Char := '(' :: ')' :: '[' :: ']' :: operatorChars

theorem mem_marks_of_operator (h : c ∈ operatorChars) : c ∈ marks := by
  simp [marks, h]

theorem marks_spec : ∀ c ∈ marks, isBlank c = false ∧ isNameChar c = false ∧
    c.isDigit = false ∧ c ≠ '.' ∧ c ≠ '\'' ∧ c ≠ '"' := by
  intro c hc
  have hall : (marks.all fun c => !isBlank c && isAsciiMark c && !c.isDigit && c != '.' &&
      c != '\'' && c != '"') = true := by
    decide +kernel
  obtain ⟨hblank, hmark, hrest⟩ : isBlank c = false ∧ isAsciiMark c = true ∧
      c.isDigit = false ∧ c ≠ '.' ∧ c ≠ '\'' ∧ c ≠ '"' := by
    simpa [and_assoc] using List.all_eq_true.mp hall c hc
  exact ⟨hblank, not_isNameChar_of_isAsciiMark hmark, hrest⟩

theorem cutAt_mark (h : Parted columns) (hc : c ∈ marks)
    (hminus : c = '-' → startsNumber s = false) (offset : Nat) :
    cutAt (columns.map String.toList) before last offset c s = symbolCut offset c s := by
  obtain ⟨-, hname, hdigit, hpoint, htick, hquote⟩ := marks_spec c hc
  have hstart : isNameStart c = false := by
    rw [isNameChar, Bool.or_eq_false_iff] at hname
    exact hname.1
  have hcolumn : boundaryColumn? (columns.map String.toList) before (c :: s) = none := by
    rw [boundaryColumn?, h.columnAt?_none hname, ite_self]
  have hnumber : startsNumber (c :: s) = false := by
    unfold startsNumber
    split
    · exact absurd (List.cons.inj ‹_›).1 hpoint
    · rename_i heq
      rw [← (List.cons.inj heq).1]
      exact hdigit
    · rfl
  have hsign : (c == '-' && expectsOperand last && startsNumber s) = false := by
    by_cases hm : c = '-'
    · rw [hminus hm, Bool.and_false]
    · simp [hm]
  simp only [cutAt, hcolumn, hnumber, hsign, hstart, Bool.false_eq_true, if_false]
  rw [if_neg (by simp [htick, hquote])]

theorem Scans.punctuation (h : Parted columns) (hc : c ∈ marks)
    (htoken : Token.ofPunctuation? c = some token)
    (hrest : Scans columns (some c) (some token) s ts) :
    Scans columns before last (c :: s) (token :: ts) := by
  have hminus : c = '-' → startsNumber s = false := by
    rintro rfl
    cases htoken
  refine Scans.cut (t := []) (marks_spec c hc).1 ?_ hrest
  intro offset
  rw [List.nil_append, cutAt_mark h hc hminus, symbolCut, htoken]
  rfl

theorem isPrefixOf_blank {t : List Char} (ht : ' ' ∉ t) (s rest : List Char) :
    t.isPrefixOf (s ++ ' ' :: rest) = t.isPrefixOf s := by
  rw [Bool.eq_iff_iff, List.isPrefixOf_iff_prefix, List.isPrefixOf_iff_prefix]
  constructor
  · rintro ⟨u, hu⟩
    rcases List.append_eq_append_iff.mp hu with ⟨x, rfl, -⟩ | ⟨x, rfl, hx⟩
    · exact List.prefix_append t x
    · cases x with
      | nil => exact ⟨[], by simp⟩
      | cons d x =>
        obtain rfl := (List.cons.inj hx).1
        simp at ht
  · exact fun h => h.trans (List.prefix_append s _)

theorem longest?_blank (s rest : List Char) :
    Symbol.longest? (s ++ ' ' :: rest) = Symbol.longest? s := by
  have hall : ∀ op ∈ Symbol.all, ' ' ∉ op.text.toList := by decide +kernel
  unfold Symbol.longest?
  generalize Symbol.all = ops at hall
  induction ops with
  | nil => rfl
  | cons op ops ih =>
    rw [List.find?_cons, List.find?_cons, isPrefixOf_blank (hall op List.mem_cons_self),
      ih fun o ho => hall o (List.mem_cons_of_mem _ ho)]

theorem Connective.longest?_symbol (c : Connective) :
    Symbol.longest? c.symbol.text.toList = some c.symbol := by
  cases c with
  | binary op => cases op with | arith op | compare op => cases op <;> decide +kernel
  | logical op => cases op <;> decide +kernel

/-- A minus starts no longer operator. -/
theorem Connective.text_symbol (c : Connective) :
    ∃ d ∈ operatorChars, ∃ t, c.symbol.text.toList = d :: t ∧ (d = '-' → t = []) := by
  have hhead : (operatorChars.any fun d => c.symbol.text.toList.head? == some d &&
      (d != '-' || c.symbol.text.toList.tail.isEmpty)) = true := by
    cases c with
    | binary op => cases op with | arith op | compare op => cases op <;> decide +kernel
    | logical op => cases op <;> decide +kernel
  obtain ⟨d, hd, hhead⟩ := List.any_eq_true.mp hhead
  simp only [Bool.and_eq_true, beq_iff_eq, Bool.or_eq_true, bne_iff_ne, ne_eq] at hhead
  obtain ⟨t, ht⟩ := List.head?_eq_some_iff.mp hhead.1
  rw [ht] at hhead
  refine ⟨d, hd, t, ht, ?_⟩
  intro hminus
  exact List.isEmpty_iff.mp (hhead.2.resolve_left (not_not_intro hminus))

theorem ofPunctuation?_operator (hc : c ∈ operatorChars) : Token.ofPunctuation? c = none := by
  have hall : (operatorChars.all fun c => (Token.ofPunctuation? c).isNone) = true := by decide
  exact Option.isNone_iff_eq_none.mp (List.all_eq_true.mp hall c hc)

theorem Scans.connective (h : Parted columns) (c : Connective)
    (hrest : Scans columns (some ' ') (some (.symbol c.symbol)) s ts) :
    Scans columns before last (Expr.spaced c.symbol.text ++ s) (.symbol c.symbol :: ts) := by
  obtain ⟨d, hd, t, htext, hminus⟩ := c.text_symbol
  have hlongest := c.longest?_symbol
  rw [htext] at hlongest
  have hspaced : Expr.spaced c.symbol.text ++ s = ' ' :: (d :: t ++ ' ' :: s) := by
    simp [Expr.spaced, htext]
  have hsign : d = '-' → startsNumber (t ++ ' ' :: s) = false := by
    intro hd
    rw [hminus hd]
    rfl
  rw [hspaced]
  apply Scans.blank
  refine Scans.cut (marks_spec d (mem_marks_of_operator hd)).1 ?_ hrest.blank
  intro offset
  rw [cutAt_mark h (mem_marks_of_operator hd) hsign, symbolCut, ofPunctuation?_operator hd,
    ← List.cons_append, longest?_blank, hlongest]
  simp [htext]

/-- An operand may stand here: no word is cut apart and a minus is a sign. -/
structure OperandPlace (before : Option Char) (last : Option Token) : Prop where
  boundary : atBoundary before = true
  expects : expectsOperand last = true

/-- Where an operand may start and stop, the text is cut into the tokens. -/
def ScansOperand (columns : List String) (s : List Char) (ts : List Token) : Prop :=
  ∀ (before : Option Char) (last : Option Token) (rest : List Char) (more : List Token),
    OperandPlace before last → Stops rest → (∀ before last, Scans columns before last rest more) →
    Scans columns before last (s ++ rest) (ts ++ more)

/-- No blank belongs to a name: the blanks are few enough to be tried one by one. -/
theorem not_isBlank_of_isNameChar (h : isNameChar c = true) : isBlank c = false := by
  have hblanks : ∀ n ∈ blankRanges.flatMap fun range =>
      List.range' range.1 (range.2 + 1 - range.1), isNameChar (Char.ofNat n) = false := by
    decide +kernel
  apply Bool.eq_false_iff.mpr
  intro hblank
  obtain ⟨range, hmem, hrange⟩ := List.any_eq_true.mp hblank
  simp only [Bool.and_eq_true, decide_eq_true_eq] at hrange
  have hpoint := hblanks c.toNat (List.mem_flatMap.mpr ⟨range, hmem, List.mem_range'_1.mpr (by omega)⟩)
  rw [Char.ofNat_toNat, h] at hpoint
  cases hpoint

theorem ScansOperand.column (h : Parted columns) {word : String} (hword : word ∈ columns)
    (hne : word ≠ "") : ScansOperand columns word.toList [.column word] := by
  intro before last rest more hplace hstops hrest
  have hfound := h.columnAt?_some hword hne hstops
  have hstart := h.starts word hword
  have hback : String.ofList word.toList = word := String.ofList_toList
  have hne : word.toList ≠ [] := fun heq => hne (String.toList_eq_nil_iff.mp heq)
  generalize word.toList = name at hfound hstart hback hne
  obtain ⟨c, t, rfl⟩ := List.exists_cons_of_ne_nil hne
  refine Scans.cut (not_isBlank_of_isNameChar (hstart c rfl)) ?_ (hrest _ _)
  intro offset
  rw [List.cons_append] at hfound
  simp only [cutAt, boundaryColumn?, hplace.boundary, if_true, hfound, hback]
  rfl

theorem digit_spec (h : c.isDigit = true) :
    isBlank c = false ∧ isNameStart c = false ∧ c ≠ '-' ∧ c ≠ '.' := by
  have hc := forall_digit (p := fun c => !isBlank c && !isNameStart c && c != '-' && c != '.')
    (by decide +kernel) h
  simpa [and_assoc] using hc

theorem startsNumber_digit (h : c.isDigit = true) (s : List Char) : startsNumber (c :: s) = true := by
  unfold startsNumber
  split
  · exact absurd (List.cons.inj ‹_›).1 (digit_spec h).2.2.2
  · rename_i heq
    rw [← (List.cons.inj heq).1]
    exact h
  · rename_i heq
    cases heq

theorem digitCount_append (hs : ∀ c ∈ s, c.isDigit = true) (hrest : NoDigit rest) :
    digitCount (s ++ rest) = s.length := by
  rw [digitCount, takeWhile_digits hs hrest]

theorem Stops.noDigit (h : Stops rest) : NoDigit rest :=
  h.head (P := fun c => c.isDigit = false) rfl rfl

theorem Stops.fractionWidth (h : Stops rest) : fractionWidth rest = 0 := by
  cases h <;> rfl

theorem Stops.exponentWidth (h : Stops rest) : exponentWidth rest = 0 := by
  cases h with
  | nil => rfl
  | paren | operator => simp [Lexer.exponentWidth]

theorem fractionWidth_digits (hs : AllDigits s) (hstops : Stops rest) :
    Lexer.fractionWidth ('.' :: (s ++ rest)) = s.length + 1 := by
  have hne : s.length ≠ 0 := fun h => hs.1 (List.eq_nil_of_length_eq_zero h)
  rw [Lexer.fractionWidth, digitCount_append hs.2 hstops.noDigit, if_neg hne]

theorem numberWidth_numeral (hs : Numeral s) (hstops : Stops rest) :
    numberWidth (s ++ rest) = s.length := by
  cases hs with
  | whole h =>
    rw [numberWidth, digitCount_append h.2 hstops.noDigit]
    simp only [List.drop_left, hstops.fractionWidth, Nat.add_zero, hstops.exponentWidth]
  | @point ds es hd he =>
    have hdrop : (ds ++ '.' :: (es ++ rest)).drop (ds.length + (es.length + 1)) = rest := by
      rw [← List.drop_drop, List.drop_left, List.drop_succ_cons, List.drop_left]
    rw [numberWidth, List.append_assoc, List.cons_append,
      digitCount_append hd.2 (noDigit_point _)]
    simp only [List.drop_left, fractionWidth_digits he hstops, hdrop, hstops.exponentWidth,
      List.length_append,
      List.length_cons, Nat.add_zero]

theorem numberWidth_fraction (hs : AllDigits s) (hstops : Stops rest) :
    numberWidth ('.' :: s ++ rest) = ('.' :: s).length := by
  have hnone : digitCount ('.' :: (s ++ rest)) = 0 := by
    rw [digitCount, List.takeWhile_cons_of_neg (by decide), List.length_nil]
  rw [List.cons_append, numberWidth, hnone]
  simp only [List.drop_zero, fractionWidth_digits hs hstops, Nat.zero_add, List.drop_succ_cons,
    List.drop_left, hstops.exponentWidth, List.length_cons, Nat.add_zero]

theorem numberCut_read {x : Binary64} (hread : Binary64.ofText? s = some x)
    (hx : x.isFinite = true) (rest : List Char) :
    numberCut s.length (s ++ rest) = .ok ⟨.number x, s.length - 1⟩ := by
  simp only [numberCut, List.take_left, hread, hx, if_true]

/-- The sign keeps a numeral from being taken for a column. -/
theorem ScansOperand.number (h : Parted columns) {negative : Bool} (hs : Numeral s) {x : Binary64}
    (hread : Binary64.ofText? (Binary64.signed negative s) = some x) (hx : x.isFinite = true)
    (hfree : negative = false → ∀ rest, Stops rest →
      columnAt? (columns.map String.toList) (s ++ rest) = none) :
    ScansOperand columns (Binary64.signed negative s) [.number x] := by
  intro before last rest more hplace hstops hrest
  have hwidth := numberWidth_numeral hs hstops
  have hcut := numberCut_read hread hx rest
  obtain ⟨c, t, rfl, hc⟩ := hs.exists_cons
  obtain ⟨hblank, -⟩ := digit_spec hc
  cases negative with
  | false =>
    refine Scans.cut hblank ?_ (hrest _ _)
    intro offset
    have hcolumn : boundaryColumn? (columns.map String.toList) before (c :: (t ++ rest)) = none := by
      have hnone := hfree rfl rest hstops
      rw [List.cons_append] at hnone
      rw [boundaryColumn?, hnone, ite_self]
    simp only [cutAt, hcolumn, startsNumber_digit hc, if_true]
    rw [← List.cons_append, hwidth]
    exact hcut
  | true =>
    refine Scans.cut (by decide +kernel) ?_ (hrest _ _)
    intro offset
    have hcolumn : boundaryColumn? (columns.map String.toList) before
        ('-' :: (c :: t ++ rest)) = none := by
      rw [boundaryColumn?, h.columnAt?_none (by decide +kernel), ite_self]
    have hnumber : startsNumber ('-' :: (c :: t ++ rest)) = false := rfl
    have hdigit : startsNumber (c :: t ++ rest) = true := startsNumber_digit hc _
    simp only [cutAt, hcolumn, hnumber, hplace.expects, hdigit, hwidth, Bool.false_eq_true, if_false]
    exact hcut

theorem ScansOperand.group (h : Parted columns) (hs : ScansOperand columns s ts) :
    ScansOperand columns ('(' :: (s ++ [')'])) (.leftParen :: (ts ++ [.rightParen])) := by
  intro before last rest more hplace hstops hrest
  have hclose : ∀ before last, Scans columns before last (')' :: rest) (.rightParen :: more) :=
    fun _ _ => Scans.punctuation h (by decide) rfl (hrest _ _)
  have hinside := hs (some '(') (some .leftParen) _ _ ⟨by decide +kernel, rfl⟩ (.paren rest) hclose
  simpa using Scans.punctuation h (by decide) rfl hinside

theorem ScansOperand.empty (h : Parted columns) :
    ScansOperand columns ['[', ']'] [.leftBracket, .rightBracket] :=
  fun _ _ _ _ _ _ hrest => Scans.punctuation h (by decide) rfl
    (Scans.punctuation h (by decide) rfl (hrest _ _))

theorem stops_spaced (c : Connective) (s : List Char) :
    Stops (Expr.spaced c.symbol.text ++ s) := by
  obtain ⟨d, hd, t, htext, -⟩ := c.text_symbol
  rw [Expr.spaced, htext]
  exact .operator hd _

theorem ScansOperand.chain (h : Parted columns) (c : Connective) {us : List Token}
    (hs : ScansOperand columns s ts) (ht : ScansOperand columns t us) :
    ScansOperand columns (s ++ (Expr.spaced c.symbol.text ++ t))
      (ts ++ .symbol c.symbol :: us) := by
  intro before last rest more hplace hstops hrest
  have hright := ht (some ' ') (some (.symbol c.symbol)) rest more ⟨by decide +kernel, rfl⟩ hstops
    hrest
  have hboth := hs before last _ _ hplace (stops_spaced c (t ++ rest))
    fun _ _ => Scans.connective h c hright
  simpa using hboth

/-- An operand may be the whole text. -/
theorem ScansOperand.tokenize (h : ScansOperand columns s ts) :
    ∃ lexemes, ColumnRules.tokenize (String.ofList s) columns = .ok lexemes ∧
      lexemes.map Lexeme.token = ts := by
  obtain ⟨lexemes, hscan, htokens⟩ := h none none [] [] ⟨rfl, rfl⟩ .nil (fun _ _ => Scans.nil) 0
  rw [List.append_nil] at hscan htokens
  refine ⟨lexemes, ?_, htokens⟩
  rw [ColumnRules.tokenize, String.toList_ofList]
  exact hscan

end Scanning

end ColumnRules
