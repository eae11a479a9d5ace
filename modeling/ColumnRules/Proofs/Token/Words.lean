import ColumnRules.Proofs.Token.Scanning

/-!
# Columns named by words

The names of a column list may be words of name characters that start with a digit. Then a column
is cut off a numeral just if its name is all the whole digits of the numeral. What is left of a
numeral with a point is a number by itself.
-/

set_option autoImplicit false

namespace ColumnRules

/-- Every name is a word of name characters. -/
def Words (columns : List String) : Prop :=
  ∀ name ∈ columns, name ≠ "" ∧ ∀ c ∈ name.toList, isNameChar c = true

instance (columns : List String) : Decidable (Words columns) :=
  decidable_of_iff (columns.all fun name => name != "" && name.toList.all isNameChar) (by
    simp [Words])

/-- The digits that the text of a number starts with. A sign stands in front of all digits. -/
def Binary64.leadingDigits (x : Binary64) : List Char := x.ruleText.takeWhile Char.isDigit

/-- A number is shown behind a sign, by digits alone or by digits with a point among them. -/
theorem Binary64.ruleText_cases {x : Binary64} (hx : x.isFinite = true) :
    (x.leadingDigits = [] ∧ ∃ s, x.ruleText = '-' :: s) ∨
    x.leadingDigits = x.ruleText ∨
    ∃ es, AllDigits x.leadingDigits ∧ AllDigits es ∧
      x.ruleText = x.leadingDigits ++ '.' :: es := by
  obtain ⟨negative, s, hsigned, hs⟩ := numeral_ruleText hx
  rw [leadingDigits, hsigned]
  cases negative with
  | true => exact .inl ⟨rfl, s, rfl⟩
  | false =>
    simp only [signed, Bool.false_eq_true, if_false]
    cases hs with
    | whole hd =>
      have hall := takeWhile_digits hd.2 noDigit_nil
      rw [List.append_nil] at hall
      exact .inr (.inl hall)
    | @point ds es hd he =>
      rw [takeWhile_digits hd.2 (noDigit_point _)]
      exact .inr (.inr ⟨es, hd, he, rfl⟩)

theorem continuesOperand_word {x : List Char} (hx : ∀ c ∈ x, isNameChar c = true) :
    continuesOperand x = false := by
  have hblank : isNameChar ' ' = false := not_isNameChar_of_isAsciiMark rfl
  have hparen : isNameChar ')' = false := not_isNameChar_of_isAsciiMark rfl
  cases x with
  | nil => rfl
  | cons c x =>
    have hc := hx c List.mem_cons_self
    unfold continuesOperand
    split
    · rename_i heq
      cases heq
      rw [hblank] at hc
      cases hc
    · rename_i heq
      cases heq
      rw [hparen] at hc
      cases hc
    · rename_i heq
      cases heq
      rw [hblank] at hc
      cases hc
    · rfl

namespace Words

variable {columns : List String} (h : Words columns)
include h

theorem parted : Parted columns where
  starts name hname c hc := (h name hname).2 c (List.mem_of_mem_head? hc)
  apart name hname other _ _ x hx := by
    apply continuesOperand_word
    intro c hc
    apply (h name hname).2
    rw [hx]
    exact List.mem_append_right _ hc

/-- The only word that stands at the start of a text is all of its first name characters. -/
theorem eq_of_standsAt {s rest : List Char} (hs : ∀ c ∈ s, isNameChar c = true)
    (hrest : EndsWord rest) {word : String} (hword : word ∈ columns)
    (hstands : Lexer.standsAt (s ++ rest) word.toList = true) : word.toList = s := by
  obtain ⟨behind, hbehind, hends⟩ := Lexer.standsAt_iff.mp hstands
  rw [← takeWhile_stops (h word hword).2 hends, ← hbehind, takeWhile_stops hs hrest]

theorem columnAt?_eq_none {s rest : List Char} (hs : ∀ c ∈ s, isNameChar c = true)
    (hrest : EndsWord rest) (hfree : ∀ word ∈ columns, word.toList ≠ s) :
    Lexer.columnAt? (columns.map String.toList) (s ++ rest) = none := by
  apply Lexer.columnAt?_eq_iff.mpr
  intro name hname hstands
  obtain ⟨word, hword, rfl⟩ := List.mem_map.mp hname
  exact absurd (h.eq_of_standsAt hs hrest hword hstands) (hfree word hword)

theorem columnAt?_eq_some {word : String} (hword : word ∈ columns) {rest : List Char}
    (hrest : EndsWord rest) :
    Lexer.columnAt? (columns.map String.toList) (word.toList ++ rest) = some word.toList := by
  obtain ⟨hne, hchars⟩ := h word hword
  refine Lexer.columnAt?_eq_iff.mpr ⟨List.mem_map_of_mem hword,
    fun heq => hne (String.toList_eq_nil_iff.mp heq), Lexer.standsAt_iff.mpr ⟨rest, rfl, hrest⟩, ?_⟩
  intro name hname hstands
  obtain ⟨other, hother, rfl⟩ := List.mem_map.mp hname
  exact Nat.le_of_eq (congrArg List.length (h.eq_of_standsAt hchars hrest hother hstands))

end Words

theorem isNameChar_of_digits {ds : List Char} (h : AllDigits ds) :
    ∀ c ∈ ds, isNameChar c = true :=
  fun c hc => isNameChar_of_isDigit (h.2 c hc)

theorem endsWord_point (s : List Char) : EndsWord ('.' :: s) := by
  intro c hc
  cases hc
  exact not_isNameChar_of_isAsciiMark rfl

/-- Inside a word no column starts, so digits behind a point there are a number. -/
theorem Scans.fraction {columns : List String} {before : Option Char} {last : Option Token}
    {es rest : List Char} {x : Binary64} {ts : List Token} (he : AllDigits es)
    (hread : Binary64.ofText? ('.' :: es) = some x) (hx : x.isFinite = true)
    (hinside : Lexer.atBoundary before = false) (hstops : Stops rest)
    (hrest : ∀ before last, Scans columns before last rest ts) :
    Scans columns before last ('.' :: es ++ rest) (.number x :: ts) := by
  have hnumber : Lexer.startsNumber ('.' :: (es ++ rest)) = true := by
    obtain ⟨e, u, rfl, hdigit⟩ := he.exists_cons
    exact hdigit
  refine Scans.cut (by decide +kernel) ?_ (hrest _ _)
  intro offset
  simp only [Lexer.cutAt, Lexer.boundaryColumn?, hinside, Bool.false_eq_true, if_false, hnumber,
    if_true]
  rw [← List.cons_append, numberWidth_fraction he hstops]
  exact numberCut_read hread hx rest

section Numerals

variable {columns : List String} (h : Words columns)
include h

/-- A numeral whose whole digits name no column is cut off as a number. -/
theorem Words.columnAt?_numeral {s : List Char} (hs : Numeral s)
    (hfree : ∀ word ∈ columns, word.toList ≠ s.takeWhile Char.isDigit) {rest : List Char}
    (hstops : Stops rest) : Lexer.columnAt? (columns.map String.toList) (s ++ rest) = none := by
  cases hs with
  | whole hd =>
    have hlead := takeWhile_digits hd.2 noDigit_nil
    rw [List.append_nil] at hlead
    rw [hlead] at hfree
    exact h.columnAt?_eq_none (isNameChar_of_digits hd) hstops.not_isNameChar hfree
  | point hd he =>
    rw [takeWhile_digits hd.2 (noDigit_point _)] at hfree
    rw [List.append_assoc]
    exact h.columnAt?_eq_none (isNameChar_of_digits hd) (endsWord_point _) hfree

/-- A column takes the whole digits off a numeral and leaves its fraction. -/
theorem ScansOperand.split {word : String} (hword : word ∈ columns) {es : List Char}
    (hdigits : AllDigits word.toList) (he : AllDigits es) :
    ∃ x, ScansOperand columns (word.toList ++ '.' :: es) [.column word, .number x] := by
  obtain ⟨x, hread, hx⟩ := Binary64.ofText?_fraction he
  refine ⟨x, ?_⟩
  intro before last rest more hplace hstops hrest
  have hfound := h.columnAt?_eq_some hword (endsWord_point (es ++ rest))
  have hback : String.ofList word.toList = word := String.ofList_toList
  generalize word.toList = ds at hfound hback hdigits
  obtain ⟨c, t, rfl, hc⟩ := hdigits.exists_cons
  have hinside : Lexer.atBoundary (c :: t).getLast? = false := by
    cases hlast : (c :: t).getLast? with
    | none => simp at hlast
    | some d =>
      have hd := isNameChar_of_digits hdigits d (List.mem_of_mem_getLast? hlast)
      simp [Lexer.atBoundary, hd]
  rw [List.append_assoc]
  refine Scans.cut (digit_spec hc).1 ?_ (.fraction he hread hx hinside hstops hrest)
  intro offset
  rw [List.cons_append] at hfound
  simp only [Lexer.cutAt, Lexer.boundaryColumn?, hplace.boundary, if_true, List.cons_append, hfound,
    hback]
  rfl

end Numerals

end ColumnRules
