import ColumnRules.Json.Printer
import ColumnRules.Proofs.Number.Rounding
import Mathlib.Data.List.TakeDrop

/-!
# Numerals

The texts that numbers are shown by: digits, with or without a point and more digits, behind an
optional minus. Reading the rule text of a finite value gives the value back; only the sign of
zero is lost, because both zeros are shown as `0`.
-/

set_option autoImplicit false

namespace ColumnRules

def AllDigits (s : List Char) : Prop := s ≠ [] ∧ ∀ c ∈ s, c.isDigit = true

inductive Numeral : List Char → Prop where
  | whole {ds : List Char} : AllDigits ds → Numeral ds
  | point {ds es : List Char} : AllDigits ds → AllDigits es → Numeral (ds ++ '.' :: es)

theorem mem_digits {c : Char} (h : c.isDigit = true) :
    c ∈ ['0', '1', '2', '3', '4', '5', '6', '7', '8', '9'] := by
  rw [Char.isDigit_iff_toNat] at h
  rw [← Char.ofNat_toNat c]
  generalize c.toNat = n at h
  obtain ⟨h₁, h₂⟩ := h
  have : n = 48 ∨ n = 49 ∨ n = 50 ∨ n = 51 ∨ n = 52 ∨ n = 53 ∨ n = 54 ∨ n = 55 ∨ n = 56 ∨ n = 57 := by
    have e₁ : '0'.toNat = 48 := rfl
    have e₂ : '9'.toNat = 57 := rfl
    omega
  rcases this with h | h | h | h | h | h | h | h | h | h <;> subst h <;> decide

theorem forall_digit {p : Char → Bool}
    (h : ['0', '1', '2', '3', '4', '5', '6', '7', '8', '9'].all p = true) {c : Char}
    (hc : c.isDigit = true) : p c = true := List.all_eq_true.mp h c (mem_digits hc)

theorem AllDigits.exists_cons {s : List Char} (h : AllDigits s) :
    ∃ c t, s = c :: t ∧ c.isDigit = true := by
  obtain ⟨hne, hall⟩ := h
  cases s with
  | nil => exact absurd rfl hne
  | cons c t => exact ⟨c, t, rfl, hall c List.mem_cons_self⟩

theorem Numeral.exists_cons {s : List Char} (h : Numeral s) :
    ∃ c t, s = c :: t ∧ c.isDigit = true := by
  cases h with
  | whole h => exact h.exists_cons
  | point h _ =>
    obtain ⟨c, t, rfl, hc⟩ := h.exists_cons
    exact ⟨c, _, rfl, hc⟩

def NoDigit (s : List Char) : Prop := ∀ c ∈ s.head?, c.isDigit = false

theorem takeWhile_stops {p : Char → Bool} {s rest : List Char} (h : ∀ c ∈ s, p c = true)
    (hr : ∀ c ∈ rest.head?, p c = false) : (s ++ rest).takeWhile p = s := by
  rw [List.takeWhile_append_of_pos h]
  cases rest with
  | nil => simp
  | cons c rest => simp [hr c rfl]

theorem takeWhile_digits {ds rest : List Char} (h : ∀ c ∈ ds, c.isDigit = true)
    (hr : NoDigit rest) : (ds ++ rest).takeWhile Char.isDigit = ds :=
  takeWhile_stops h hr

theorem dropWhile_digits {ds rest : List Char} (h : ∀ c ∈ ds, c.isDigit = true)
    (hr : NoDigit rest) : (ds ++ rest).dropWhile Char.isDigit = rest := by
  rw [List.dropWhile_append_of_pos h]
  cases rest with
  | nil => rfl
  | cons c rest => simp [hr c rfl]

theorem span_digits {ds rest : List Char} (h : ∀ c ∈ ds, c.isDigit = true) (hr : NoDigit rest) :
    (ds ++ rest).span Char.isDigit = (ds, rest) := by
  rw [List.span_eq_takeWhile_dropWhile, takeWhile_digits h hr, dropWhile_digits h hr]

theorem noDigit_nil : NoDigit [] := fun _ h => nomatch h

theorem noDigit_point (s : List Char) : NoDigit ('.' :: s) := by
  intro c hc
  cases hc
  rfl

theorem ofDigitChars_lt {s : List Char} (h : ∀ c ∈ s, c.isDigit = true) (init : Nat) :
    Nat.ofDigitChars 10 s init < (init + 1) * pow10 s.length := by
  induction s generalizing init with
  | nil =>
    rw [Nat.ofDigitChars_nil, List.length_nil]
    exact Nat.lt_of_lt_of_eq (Nat.lt_succ_self init) (Nat.mul_one _).symm
  | cons c s ih =>
    obtain ⟨hc, hs⟩ := List.forall_mem_cons.mp h
    have hdigit := forall_digit (p := fun c => c.toNat - '0'.toNat < 10) (by decide) hc
    simp only [decide_eq_true_eq] at hdigit
    rw [Nat.ofDigitChars_cons, List.length_cons, Nat.add_comm s.length 1, pow10_add, ← Nat.mul_assoc]
    apply Nat.lt_of_lt_of_le (ih hs _)
    have h10 : pow10 1 = 10 := rfl
    rw [h10]
    exact Nat.mul_le_mul_right _ (by omega)

namespace Binary64

theorem decimalOfText?_whole {ds : List Char} (h : AllDigits ds) :
    decimalOfText? ds = some (.ofParts ds [] 0) := by
  have hspan := span_digits h.2 noDigit_nil
  rw [List.append_nil] at hspan
  have hne : ds.isEmpty = false := by simpa using h.1
  unfold decimalOfText?
  rw [hspan]
  simp only [hne, exponentOfText?, Bool.false_and, Bool.false_eq_true, if_false, Option.map_some]

theorem decimalOfText?_point {ds es : List Char} (hd : AllDigits ds) (he : AllDigits es) :
    decimalOfText? (ds ++ '.' :: es) = some (.ofParts ds es 0) := by
  have hspan := span_digits hd.2 (noDigit_point es)
  have hspan' := span_digits he.2 noDigit_nil
  rw [List.append_nil] at hspan'
  have hne : ds.isEmpty = false := by simpa using hd.1
  unfold decimalOfText?
  rw [hspan]
  simp only [hspan', hne, exponentOfText?, Bool.false_and, Bool.false_eq_true, if_false,
    Option.map_some]

theorem decimalOfText?_fraction {es : List Char} (he : AllDigits es) :
    decimalOfText? ('.' :: es) = some (.ofParts [] es 0) := by
  have hspan : ('.' :: es).span Char.isDigit = ([], '.' :: es) :=
    span_digits (List.forall_mem_nil _) (noDigit_point es)
  have hspan' := span_digits he.2 noDigit_nil
  rw [List.append_nil] at hspan'
  have hne : es.isEmpty = false := by simpa using he.1
  unfold decimalOfText?
  rw [hspan]
  simp only [hspan', hne, exponentOfText?, Bool.and_false, Bool.false_eq_true, if_false,
    Option.map_some]

/-- A fraction may stand without whole digits. -/
theorem ofText?_fraction {es : List Char} (he : AllDigits es) :
    ∃ x, ofText? ('.' :: es) = some x ∧ x.isFinite = true := by
  refine ⟨(Decimal.ofParts [] es 0).toBinary64 false, ?_, ?_⟩
  · have hread : ofText? ('.' :: es) = unsignedOfText? false ('.' :: es) := rfl
    have hinfinite : ∀ word, sameWord ('.' :: es) ('i' :: word) = false := fun _ => rfl
    have hnan : ∀ word, sameWord ('.' :: es) ('n' :: word) = false := fun _ => rfl
    simp only [hread, unsignedOfText?, hinfinite, hnan, Bool.or_self, Bool.false_eq_true, if_false,
      decimalOfText?_fraction he, Option.map_some]
  · have hbelow := ofDigitChars_lt he.2 0
    rw [Nat.zero_add, Nat.one_mul] at hbelow
    have hparts : Decimal.ofParts [] es 0 =
        ⟨Nat.ofDigitChars 10 es 0, -(es.length : Int)⟩ := by
      simp [Decimal.ofParts]
    rw [hparts]
    exact Decimal.isFinite_toBinary64 hbelow false

theorem sameWord_of_isDigit {c w : Char} (hc : c.isDigit = true) (hw : w.isDigit = false)
    (s word : List Char) : sameWord (c :: s) (w :: word) = false := by
  have hlower : c.toLower = c :=
    beq_iff_eq.mp (forall_digit (p := fun c => c.toLower == c) (by decide) hc)
  have hne : c ≠ w := by
    rintro rfl
    rw [hc] at hw
    cases hw
  simp [sameWord, hlower, hne]

/-- A numeral is no word, so it is read as a decimal. -/
theorem unsignedOfText?_numeral {s : List Char} (h : Numeral s) (negative : Bool) :
    unsignedOfText? negative s = (decimalOfText? s).map (Decimal.toBinary64 negative) := by
  obtain ⟨c, t, rfl, hc⟩ := h.exists_cons
  simp [unsignedOfText?, sameWord_of_isDigit hc]

theorem ofText?_signed {s : List Char} (h : Numeral s) (negative : Bool) :
    ofText? (signed negative s) = (decimalOfText? s).map (Decimal.toBinary64 negative) := by
  rw [← unsignedOfText?_numeral h]
  obtain ⟨c, t, rfl, hc⟩ := h.exists_cons
  cases negative with
  | true => rfl
  | false =>
    simp only [signed, Bool.false_eq_true, if_false]
    unfold ofText?
    split
    · rename_i heq
      cases heq
      cases hc
    · rename_i heq
      cases heq
      cases hc
    · rfl

/-- The value that reading the rule text of a finite value gives: zero loses its sign. -/
def shown (x : Binary64) : Binary64 := if x.isZero then zero false else x

@[simp] theorem shown_shown (x : Binary64) : x.shown.shown = x.shown := by
  by_cases h : x.isZero = true
  · simp only [shown, if_pos h]
    rfl
  · simp only [shown, if_neg h]

@[simp] theorem isFinite_shown (x : Binary64) : x.shown.isFinite = x.isFinite := by
  unfold shown
  split
  · cases x <;> simp_all [isZero, isFinite, zero]
  · rfl

theorem sameValue_self {x : Binary64} (h : x.isFinite = true) : x.sameValue x = true := by
  cases x <;> simp_all [isFinite, sameValue]

theorem sameValue_shown {x : Binary64} (h : x.isFinite = true) : x.shown.sameValue x = true := by
  unfold shown
  split
  · rename_i hz
    cases x with
    | finite negative rank =>
      have hrank : rank.val = 0 := by simpa [isZero] using hz
      cases negative <;> simp [zero, sameValue, units, hrank]
    | infinite => cases h
    | nan => cases h
  · exact sameValue_self h

end Binary64

namespace Decimal

theorem allDigits_toDigits (n : Nat) : AllDigits (Nat.toDigits 10 n) :=
  ⟨Nat.toDigits_ne_nil, fun _ hc => Nat.isDigit_of_mem_toDigits (by decide) (by decide) hc⟩

theorem allDigits_digitChars (d : Decimal) : AllDigits d.digitChars := allDigits_toDigits d.digits

theorem isDigit_of_mem_zeros {n : Nat} {c : Char} (h : c ∈ List.replicate n '0') :
    c.isDigit = true := by
  rw [(List.mem_replicate.mp h).2]
  rfl

theorem allDigits_zeros_append (n : Nat) {ds : List Char} (h : AllDigits ds) :
    AllDigits (List.replicate n '0' ++ ds) := by
  refine ⟨by simp [h.1], ?_⟩
  intro c hc
  rcases List.mem_append.mp hc with hc | hc
  · exact isDigit_of_mem_zeros hc
  · exact h.2 c hc

theorem allDigits_append_zeros (n : Nat) {ds : List Char} (h : AllDigits ds) :
    AllDigits (ds ++ List.replicate n '0') := by
  refine ⟨by simp [h.1], ?_⟩
  intro c hc
  rcases List.mem_append.mp hc with hc | hc
  · exact h.2 c hc
  · exact isDigit_of_mem_zeros hc

/-- How a decimal is laid out: its digits with the zeros that its power of ten asks for, or two
parts around the point that make up the decimal itself. -/
theorem positional_cases (d : Decimal) :
    (∃ e : Nat, d.exponent = .ofNat e ∧ d.positional = d.digitChars ++ List.replicate e '0') ∨
    (∃ ds es, AllDigits ds ∧ AllDigits es ∧ d.positional = ds ++ '.' :: es ∧
      ofParts ds es 0 = d) := by
  have hdigits := allDigits_digitChars d
  have hvalue : Nat.ofDigitChars 10 d.digitChars 0 = d.digits := Nat.ofDigitChars_ten_toDigits
  obtain ⟨digits, exponent⟩ := d
  cases exponent with
  | ofNat e => exact .inl ⟨e, rfl, rfl⟩
  | negSucc e =>
    apply Or.inr
    generalize hchars : (Decimal.mk digits (.negSucc e)).digitChars = ds at hdigits hvalue
    have hexp : (0 : Int) - ((e + 1 : Nat) : Int) = .negSucc e := by
      rw [Int.negSucc_eq]
      omega
    by_cases hlt : e + 1 < ds.length
    · refine ⟨ds.take (ds.length - (e + 1)), ds.drop (ds.length - (e + 1)), ⟨?_, ?_⟩, ⟨?_, ?_⟩,
        ?_, ?_⟩
      · exact List.ne_nil_of_length_pos (by rw [List.length_take]; omega)
      · exact fun c hc => hdigits.2 c (List.mem_of_mem_take hc)
      · exact List.ne_nil_of_length_pos (by rw [List.length_drop]; omega)
      · exact fun c hc => hdigits.2 c (List.mem_of_mem_drop hc)
      · simp only [positional, hchars, if_pos hlt]
      · have hlength : ds.length - (ds.length - (e + 1)) = e + 1 := by omega
        rw [ofParts, List.take_append_drop, hvalue, List.length_drop, hlength, hexp]
    · refine ⟨['0'], List.replicate (e + 1 - ds.length) '0' ++ ds, ⟨by simp, by simp⟩,
        allDigits_zeros_append _ hdigits, ?_, ?_⟩
      · simp only [positional, hchars, if_neg hlt]
        rfl
      · have hlength : e + 1 - ds.length + ds.length = e + 1 := by omega
        have hzeros : Nat.ofDigitChars 10 (['0'] ++ (List.replicate (e + 1 - ds.length) '0' ++ ds)) 0
            = digits := by
          rw [Nat.ofDigitChars_append, Nat.ofDigitChars_append]
          simpa [Nat.ofDigitChars_cons] using hvalue
        rw [ofParts, hzeros, List.length_append, List.length_replicate, hlength, hexp]

theorem numeral_positional (d : Decimal) : Numeral d.positional := by
  rcases positional_cases d with ⟨e, _, htext⟩ | ⟨ds, es, hd, he, htext, _⟩
  · rw [htext]
    exact .whole (allDigits_append_zeros e (allDigits_digitChars d))
  · rw [htext]
    exact .point hd he

/-- The positional text of a decimal that is read as a finite value is read as that value. -/
theorem decimalOfText?_positional {d : Decimal} {negative : Bool} {rank : Fin magnitudeCount}
    (h : d.toBinary64 negative = .finite negative rank) :
    (Binary64.decimalOfText? d.positional).map (toBinary64 negative) =
      some (.finite negative rank) := by
  rcases positional_cases d with ⟨e, hexp, htext⟩ | ⟨ds, es, hd, he, htext, hparts⟩
  · have hvalue : Nat.ofDigitChars 10 d.digitChars 0 = d.digits := Nat.ofDigitChars_ten_toDigits
    have hdigits := allDigits_append_zeros e (allDigits_digitChars d)
    have hparts : ofParts (d.digitChars ++ List.replicate e '0') [] 0 =
        ⟨d.digits * pow10 e, 0⟩ := by
      simp [ofParts, Nat.ofDigitChars_append, hvalue, pow10, Nat.mul_comm]
    rw [htext, Binary64.decimalOfText?_whole hdigits, Option.map_some, hparts,
      toBinary64_whole hexp h]
  · rw [htext, Binary64.decimalOfText?_point hd he, Option.map_some, hparts, h]

end Decimal

namespace Binary64

/-- The digits of a whole number are read as the number rounded once. -/
theorem decimalOfText?_toDigits (n : Nat) (negative : Bool) :
    (decimalOfText? (Nat.toDigits 10 n)).map (Decimal.toBinary64 negative) =
      some (if n = 0 then zero negative else ofRatio negative (n * one) 1) := by
  have hparts : Decimal.ofParts (Nat.toDigits 10 n) [] 0 = ⟨n, 0⟩ := by
    simp [Decimal.ofParts, Nat.ofDigitChars_ten_toDigits]
  rw [decimalOfText?_whole (Decimal.allDigits_toDigits n), Option.map_some, hparts]
  unfold Decimal.toBinary64
  by_cases h : n = 0
  · simp only [if_pos h]
  · simp only [if_neg h]
    rw [if_neg (by decide), if_neg (by omega)]
    simp only [Decimal.ratio, pow10, Nat.pow_eq, Nat.pow_zero, Nat.mul_one]

theorem ofRatio_zero (negative : Bool) : ofRatio negative 0 1 = zero negative :=
  ofRatio_unitsOfRank negative ⟨0, by decide⟩

theorem isZero_finite {negative : Bool} {rank : Fin magnitudeCount} :
    (finite negative rank).isZero = decide (rank.val = 0) := by
  simp [isZero, Bool.beq_eq_decide_eq]

theorem nearestRank_pos {n : Nat} (h : 0 < n) : 0 < nearestRank (n * one) 1 := by
  have hlog : 1074 ≤ (n * one / 1).log2 := by
    rw [Nat.div_one]
    exact le_log2 (Nat.le_mul_of_pos_left one h)
  have hdropped : 0 < (n * one / 1).log2 - 52 := by omega
  exact Nat.lt_of_lt_of_le (Nat.mul_pos hdropped (pow2_pos 52)) (Nat.le_add_right _ _)

/-- No whole number but zero is read as zero, and zero is read without a sign. -/
@[simp] theorem shown_ofInt (n : Int) : (ofInt n).shown = ofInt n := by
  unfold shown
  split
  · rename_i hzero
    have hn : n.natAbs = 0 := by
      apply Nat.eq_zero_of_not_pos
      intro hpos
      have hrank := nearestRank_pos hpos
      simp only [ofInt, ofRatio] at hzero
      split at hzero
      · rw [isZero_finite] at hzero
        exact absurd (of_decide_eq_true hzero) (Nat.ne_of_gt hrank)
      · cases hzero
    obtain rfl := Int.natAbs_eq_zero.mp hn
    simp [ofInt, ofRatio_zero]
  · rfl

theorem ofText?_intText (n : Int) : ofText? (Json.intText n) = some (ofInt n) := by
  rw [Json.intText, ofText?_signed (.whole (Decimal.allDigits_toDigits _)),
    decimalOfText?_toDigits, ofInt]
  by_cases h : n = 0
  · simp [h, ofRatio_zero]
  · rw [if_neg (by omega)]

/-- A whole value is the signed number of its units; zero alone does not tell its sign. -/
theorem toInt?_eq_some {x : Binary64} {n : Int} (h : x.toInt? = some n) :
    ∃ negative rank, x = finite negative rank ∧ n.natAbs * one = unitsOfRank rank ∧
      (n = 0 ↔ rank.val = 0) ∧ (n ≠ 0 → negative = decide (n < 0)) := by
  cases x with
  | infinite => cases h
  | nan => cases h
  | finite negative rank =>
    simp only [toInt?] at h
    split at h
    · rename_i hmod
      have hmul : unitsOfRank rank / one * one = unitsOfRank rank :=
        Nat.div_mul_cancel (Nat.dvd_of_mod_eq_zero hmod)
      generalize unitsOfRank rank / one = count at h hmul
      have hcount : n.natAbs = count := by
        cases negative <;> simp at h <;> omega
      refine ⟨negative, rank, rfl, by rw [hcount, hmul], ?_, ?_⟩
      · rw [← unitsOfRank_eq_zero, ← hmul, Nat.mul_eq_zero, or_iff_left (Nat.ne_of_gt one_pos)]
        omega
      · intro hn
        cases negative <;> simp at h ⊢ <;> omega
    · cases h

theorem ofText?_plainText {negative : Bool} {rank : Fin magnitudeCount} (h : rank.val ≠ 0) :
    ofText? (finite negative rank).plainText = some (finite negative rank) := by
  have hback := Decimal.toBinary64_sign (toBinary64_shortestDecimal .up h) negative
  simp only [plainText, if_neg h]
  rw [ofText?_signed (Decimal.numeral_positional _), Decimal.decimalOfText?_positional hback]

/-- Reading the rule text of a finite value gives the value, zero without its sign. -/
theorem ofText?_ruleText {x : Binary64} (h : x.isFinite = true) :
    ofText? x.ruleText = some x.shown := by
  have hplain : ∀ negative (rank : Fin magnitudeCount), rank.val ≠ 0 →
      ofText? (finite negative rank).plainText = some (finite negative rank).shown := by
    intro negative rank hrank
    rw [ofText?_plainText hrank]
    simp only [shown, isZero_finite, hrank, decide_false, Bool.false_eq_true, if_false]
  unfold ruleText
  split
  · rename_i n hn
    obtain ⟨negative, rank, rfl, hunits, hzero, hsign⟩ := toInt?_eq_some hn
    split
    · rw [ofText?_signed (.whole (Decimal.allDigits_toDigits _)), decimalOfText?_toDigits]
      by_cases h₀ : n = 0
      · simp [h₀, shown, isZero_finite, hzero.mp h₀]
      · rw [if_neg (by omega), hunits, ofRatio_unitsOfRank, ← hsign h₀]
        simp only [shown, isZero_finite, mt hzero.mpr h₀, decide_false, Bool.false_eq_true, if_false]
    · rename_i hlarge
      apply hplain negative rank
      intro hrank
      apply hlarge
      rw [hzero.mpr hrank]
      exact pow10_pos 15
  · rename_i hn
    cases x with
    | infinite => cases h
    | nan => cases h
    | finite negative rank =>
      apply hplain negative rank
      intro hrank
      simp [toInt?, hrank] at hn

theorem numeral_plainText {negative : Bool} {rank : Fin magnitudeCount} :
    ∃ s, (finite negative rank).plainText = signed negative s ∧ Numeral s := by
  refine ⟨_, rfl, ?_⟩
  split
  · exact .whole ⟨List.cons_ne_nil _ _, by simp⟩
  · exact Decimal.numeral_positional _

theorem numeral_ruleText {x : Binary64} (h : x.isFinite = true) :
    ∃ negative s, x.ruleText = signed negative s ∧ Numeral s := by
  have hplain : ∃ negative s, x.plainText = signed negative s ∧ Numeral s := by
    cases x with
    | finite negative rank => exact ⟨negative, numeral_plainText⟩
    | infinite => cases h
    | nan => cases h
  unfold ruleText
  split
  · split
    · exact ⟨_, _, rfl, .whole (Decimal.allDigits_toDigits _)⟩
    · exact hplain
  · exact hplain

end Binary64

end ColumnRules
