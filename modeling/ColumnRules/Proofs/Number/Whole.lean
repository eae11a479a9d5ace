import ColumnRules.Proofs.Number.Numeral

/-!
# Whole numbers are shown exactly

Every whole number up to `2 ^ 53` is a 64-bit value of its own: rounding is monotone, and the
numbers around it are rounded elsewhere. A decimal with fewer digits reads back as the number only
if it is the number, so the shortest decimal shows all digits, whatever their count.
-/

set_option autoImplicit false

namespace ColumnRules

namespace Binary64

/-- The rank of the value that a whole number is rounded to. -/
def wholeRank (n : Nat) : Nat := nearestRank (n * one) 1

theorem wholeRank_mono {m n : Nat} (h : m ≤ n) : wholeRank m ≤ wholeRank n :=
  nearestRank_mono (Nat.mul_le_mul_right one h)

/-- Whole numbers of at most 53 bits lie on the grid. -/
theorem exists_rank {n : Nat} (h : n ≤ pow2 53) : ∃ rank, unitsOfRank rank = n * one := by
  by_cases hzero : n = 0
  · exact ⟨0, by rw [hzero, Nat.zero_mul, unitsOfRank_zero]⟩
  rcases Nat.lt_or_eq_of_le h with hlt | rfl
  · have hlog : n.log2 ≤ 52 := Nat.le_of_lt_succ ((Nat.log2_lt hzero).mpr hlt)
    have hone : one = pow2 (52 - n.log2) * pow2 (1022 + n.log2) := pow2_split (by omega)
    refine ⟨(1022 + n.log2) * pow2 52 + n * pow2 (52 - n.log2), ?_⟩
    rw [unitsOfRank_normal, hone, Nat.mul_assoc]
    · have hpow : pow2 52 = pow2 n.log2 * pow2 (52 - n.log2) := pow2_split (by omega)
      rw [hpow]
      exact Nat.mul_le_mul_right _ (pow2_log2_le hzero)
    · have hpow : pow2 53 = pow2 (n.log2 + 1) * pow2 (52 - n.log2) := pow2_split (by omega)
      rw [hpow]
      exact Nat.mul_lt_mul_of_pos_right (lt_pow2_log2 n) (pow2_pos _)
  · refine ⟨1075 * pow2 52 + pow2 52, ?_⟩
    rw [unitsOfRank_normal (Nat.le_refl _) (by decide), one, ← pow2_add, ← pow2_add]

theorem unitsOfRank_wholeRank {n : Nat} (h : n ≤ pow2 53) :
    unitsOfRank (wholeRank n) = n * one := by
  obtain ⟨rank, hrank⟩ := exists_rank h
  rw [wholeRank, ← hrank, nearestRank_unitsOfRank]

/-- Past `2 ^ 53` only every other whole number is a value, so its successor is rounded to it. -/
theorem wholeRank_lt {n m : Nat} (hn : n ≤ pow2 53) (hlt : n < m) (hm : m ≠ pow2 53 + 1) :
    wholeRank n < wholeRank m := by
  rcases Nat.lt_or_eq_of_le hn with hsmall | rfl
  · have hstep : wholeRank n ≠ wholeRank (n + 1) := by
      intro heq
      have hunits := unitsOfRank_wholeRank hn
      rw [heq, unitsOfRank_wholeRank hsmall, Nat.succ_mul] at hunits
      have hone := one_pos
      omega
    exact Nat.lt_of_lt_of_le (Nat.lt_of_le_of_ne (wholeRank_mono (Nat.le_succ n)) hstep)
      (wholeRank_mono hlt)
  · have hstep : wholeRank (pow2 53) < wholeRank (pow2 53 + 2) := by decide +kernel
    exact Nat.lt_of_lt_of_le hstep (wholeRank_mono (by omega))

theorem wholeRank_lt_count {n : Nat} (h : n ≤ pow2 53) : wholeRank n < magnitudeCount := by
  have hlast : wholeRank (pow2 53) < magnitudeCount := by decide +kernel
  exact Nat.lt_of_le_of_lt (wholeRank_mono h) hlast

theorem ofInt_eq_finite {n : Int} (h : n.natAbs ≤ pow2 53) :
    ofInt n = finite (n < 0) ⟨wholeRank n.natAbs, wholeRank_lt_count h⟩ :=
  dif_pos (wholeRank_lt_count h)

theorem toInt?_ofInt {n : Int} (h : n.natAbs ≤ pow2 53) : (ofInt n).toInt? = some n := by
  rw [ofInt_eq_finite h]
  simp only [toInt?, unitsOfRank_wholeRank h, Nat.mul_mod_left, Nat.mul_div_cancel _ one_pos,
    if_true, decide_eq_true_eq, Option.some.injEq]
  split <;> omega

theorem ofRatio_ne_finite {m : Nat} {rank : Fin magnitudeCount} (h : wholeRank m ≠ rank.val) :
    ofRatio false (m * one) 1 ≠ finite false rank := by
  intro heq
  simp only [ofRatio] at heq
  split at heq
  · rw [finite.injEq] at heq
    exact h (congrArg Fin.val heq.2)
  · cases heq

end Binary64

namespace Decimal

/-- Digits with zeros behind them are read as their whole number. -/
theorem toBinary64_zeros {digits e : Nat} (hdigits : digits ≠ 0) (he : e ≤ 400) :
    toBinary64 false ⟨digits, .ofNat e⟩ = .ofRatio false (digits * pow10 e * Binary64.one) 1 := by
  have hsmall : ¬ (400 : Int) < .ofNat e := by
    simp only [Int.ofNat_eq_natCast]
    omega
  have hlarge : ¬ (digits.log2 : Int) + 1 + .ofNat e < -400 := by
    simp only [Int.ofNat_eq_natCast]
    omega
  simp only [toBinary64, if_neg hdigits, if_neg hsmall, if_neg hlarge, ratio]

theorem positional_zeros {digits : Nat} (h : digits ≠ 0) (e : Nat) :
    positional ⟨digits, .ofNat e⟩ = Nat.toDigits 10 (digits * pow10 e) := by
  have hpos := Nat.pos_of_ne_zero h
  simp only [positional, digitChars]
  induction e with
  | zero => simp [pow10]
  | succ e ih =>
    have hdigit : Nat.toDigits 10 0 = ['0'] := rfl
    have hvalue : digits * pow10 (e + 1) = 10 * (digits * pow10 e) + 0 := by
      have hten : pow10 1 = 10 := rfl
      rw [pow10_add, hten, ← Nat.mul_assoc, Nat.mul_comm 10, Nat.add_zero]
    rw [List.replicate_succ', ← List.append_assoc, ih, ← hdigit, hvalue,
      Nat.toDigits_append_toDigits (by decide) (Nat.mul_pos hpos (pow10_pos e)) (by decide)]

end Decimal

namespace Shortest

open Binary64

theorem log2_mul_one {n : Nat} (h : n ≠ 0) : (n * one).log2 = n.log2 + 1074 :=
  log2_mul_pow2 h 1074

/-- The estimate of the leading power falls short by one at most. -/
theorem estimate_bounds : ∀ l < 54, pow10 (l * 30103 / 100000) ≤ pow2 l ∧
    pow2 (l + 1) ≤ pow10 (l * 30103 / 100000 + 2) := by
  decide

theorem leadingPower_eq {units num den : Nat} {estimate : Int}
    (hestimate : (((units.log2 : Int) - 1074) * 30103).fdiv 100000 = estimate)
    (hratio : (Decimal.mk 1 (estimate + 1)).ratio one = (num, den)) :
    leadingPower units = if num ≤ units * den then estimate + 1 else estimate := by
  unfold leadingPower
  simp only [hestimate, hratio]

theorem leadingPower_whole {n : Nat} (h : n ≠ 0) (hn : n ≤ pow2 53) :
    ∃ lead : Nat, leadingPower (n * one) = lead ∧ pow10 lead ≤ n ∧ n < pow10 (lead + 1) := by
  have hlog : n.log2 < 54 := (Nat.log2_lt h).mpr (Nat.lt_of_le_of_lt hn (by decide))
  obtain ⟨hlower, hupper⟩ := estimate_bounds _ hlog
  have hestimate : ((((n * one).log2 : Int) - 1074) * 30103).fdiv 100000 =
      .ofNat (n.log2 * 30103 / 100000) := by
    rw [log2_mul_one h, Int.fdiv_eq_ediv_of_nonneg _ (by decide), Int.ofNat_eq_natCast]
    omega
  generalize n.log2 * 30103 / 100000 = estimate at hlower hupper hestimate
  have hratio : (Decimal.mk 1 (Int.ofNat estimate + 1)).ratio one =
      (1 * pow10 (estimate + 1) * one, 1) := rfl
  rw [leadingPower_eq hestimate hratio, Nat.one_mul, Nat.mul_one]
  by_cases hle : pow10 (estimate + 1) ≤ n
  · rw [if_pos (Nat.mul_le_mul_right one hle)]
    exact ⟨estimate + 1, rfl, hle, Nat.lt_of_lt_of_le (lt_pow2_log2 n) hupper⟩
  · rw [if_neg fun hmul => hle (Nat.le_of_mul_le_mul_right hmul Binary64.one_pos)]
    exact ⟨estimate, rfl, Nat.le_trans hlower (pow2_log2_le h), Nat.lt_of_not_le hle⟩

section Digits

variable {tie : Tie} {rank : Fin magnitudeCount} {count num den : Nat} {power : Int}
  (hpower : leadingPower (unitsOfRank rank) + 1 - count = power)
  (hscaled : scaled (unitsOfRank rank) power = (num, den))
include hpower hscaled

/-- The grid holds the magnitude itself. -/
theorem withDigits?_eq_below (hden : 0 < den) (hmod : num % den = 0)
    (hread : Decimal.toBinary64 false ⟨num / den, power⟩ = .finite false rank) :
    withDigits? tie rank count = some ⟨num / den, power⟩ := by
  unfold withDigits?
  simp only [hpower, hscaled, hmod, hread, Nat.mul_zero, hden, decide_true, Bool.true_or,
    if_true, beq_self_eq_true]
  split
  · rfl
  · rfl
  · rename_i hfalse _
    cases hfalse
  · rename_i hfalse _
    cases hfalse

theorem withDigits?_eq_none
    (hbelow : Decimal.toBinary64 false ⟨num / den, power⟩ ≠ .finite false rank)
    (habove : Decimal.toBinary64 false ⟨num / den + 1, power⟩ ≠ .finite false rank)
    (hcarry : num / den + 1 = pow10 count →
      Decimal.toBinary64 false ⟨1, power + count⟩ ≠ .finite false rank) :
    withDigits? tie rank count = none := by
  have hnext : Decimal.toBinary64 false (if num / den + 1 = pow10 count then ⟨1, power + count⟩
      else ⟨num / den + 1, power⟩) ≠ .finite false rank := by
    split
    · exact hcarry ‹_›
    · exact habove
  unfold withDigits?
  simp only [hpower, hscaled, beq_eq_false_iff_ne.mpr hbelow, beq_eq_false_iff_ne.mpr hnext]

end Digits

/-- The grid of `count` digits in front of `zeros` zeros, around a whole number of its own rank. -/
structure Grid (n : Nat) (rank : Fin magnitudeCount) (count zeros : Nat) : Prop where
  small : n ≤ pow2 53
  rank_eq : rank.val = wholeRank n
  power : leadingPower (n * one) + 1 - count = .ofNat zeros
  leading : n / pow10 zeros ≠ 0
  width : count + zeros ≤ 16

namespace Grid

variable {n count zeros : Nat} {tie : Tie} {rank : Fin magnitudeCount}
  (h : Grid n rank count zeros)
include h

theorem units : unitsOfRank rank = n * one := by
  rw [h.rank_eq, unitsOfRank_wholeRank h.small]

theorem leadingPower_sub : leadingPower (unitsOfRank rank) + 1 - count = .ofNat zeros := by
  rw [h.units, h.power]

theorem scaled_eq : scaled (unitsOfRank rank) (.ofNat zeros) = (n * one, pow10 zeros * one) := by
  rw [h.units, scaled, Nat.mul_comm one]

omit h in
theorem div_eq : n * one / (pow10 zeros * one) = n / pow10 zeros :=
  Nat.mul_div_mul_right _ _ Binary64.one_pos

theorem read_eq {digits : Nat} (hdigits : digits ≠ 0) :
    Decimal.toBinary64 false ⟨digits, .ofNat zeros⟩ =
      .ofRatio false (digits * pow10 zeros * one) 1 := by
  have hwidth := h.width
  exact Decimal.toBinary64_zeros hdigits (by omega)

/-- A number that ends in that many zeros lies on the grid. -/
theorem withDigits?_of_dvd (hdvd : pow10 zeros ∣ n) :
    withDigits? tie rank count = some ⟨n / pow10 zeros, .ofNat zeros⟩ := by
  have hmod : n * one % (pow10 zeros * one) = 0 := by
    rw [Nat.mul_mod_mul_right, Nat.mod_eq_zero_of_dvd hdvd, Nat.zero_mul]
  have hread : Decimal.toBinary64 false ⟨n / pow10 zeros, .ofNat zeros⟩ = .finite false rank := by
    rw [h.read_eq h.leading, Nat.div_mul_cancel hdvd, ← h.units]
    exact ofRatio_unitsOfRank false rank
  rw [← div_eq] at hread ⊢
  exact withDigits?_eq_below h.leadingPower_sub h.scaled_eq (Nat.mul_pos (pow10_pos _) Binary64.one_pos)
    hmod hread

/-- Another number lies between two points of the grid. They are whole numbers too, and neither
is rounded to it. -/
theorem withDigits?_of_not_dvd (hdvd : ¬ pow10 zeros ∣ n) : withDigits? tie rank count = none := by
  have hsplit := Nat.div_add_mod n (pow10 zeros)
  have hrest : n % pow10 zeros ≠ 0 := fun hmod => hdvd (Nat.dvd_of_mod_eq_zero hmod)
  have hless := Nat.mod_lt n (pow10_pos zeros)
  rw [Nat.mul_comm] at hsplit
  have hbelow : n / pow10 zeros * pow10 zeros < n := by omega
  have habove : n < (n / pow10 zeros + 1) * pow10 zeros := by
    rw [Nat.succ_mul]
    omega
  have hsmall := h.small
  have hlow : wholeRank (n / pow10 zeros * pow10 zeros) ≠ rank.val := by
    rw [h.rank_eq]
    exact Nat.ne_of_lt (wholeRank_lt (by omega) hbelow (by omega))
  -- The point above ends in a zero, so it is not the one number that is rounded to `2 ^ 53`.
  have hten : (n / pow10 zeros + 1) * pow10 zeros ≠ pow2 53 + 1 := by
    cases zeros with
    | zero => exact absurd (Nat.one_dvd n) hdvd
    | succ zeros =>
      have hpow : pow10 (zeros + 1) = pow10 zeros * 10 := rfl
      have hlast : (pow2 53 + 1) % 10 = 3 := by decide
      rw [hpow, ← Nat.mul_assoc]
      omega
  have hhigh : wholeRank ((n / pow10 zeros + 1) * pow10 zeros) ≠ rank.val := by
    rw [h.rank_eq]
    exact Nat.ne_of_gt (wholeRank_lt hsmall habove hten)
  apply withDigits?_eq_none h.leadingPower_sub h.scaled_eq
  · rw [div_eq, h.read_eq h.leading]
    exact ofRatio_ne_finite hlow
  · rw [div_eq, h.read_eq (Nat.succ_ne_zero _)]
    exact ofRatio_ne_finite hhigh
  · intro hcarry
    rw [div_eq] at hcarry
    have hwidth := h.width
    have hexp : Int.ofNat zeros + (count : Int) = .ofNat (zeros + count) := rfl
    rw [hexp, Decimal.toBinary64_zeros Nat.one_ne_zero (by omega), Nat.one_mul, Nat.add_comm,
      pow10_add, ← hcarry]
    exact ofRatio_ne_finite hhigh

end Grid

/-- The shortest decimal of a whole number is the number without some of its last zeros. -/
theorem shortestDecimal_whole {n : Nat} {rank : Fin magnitudeCount} (tie : Tie) (h : n ≠ 0)
    (hn : n ≤ pow2 53) (hrank : rank.val = wholeRank n) :
    ∃ digits zeros : Nat, digits ≠ 0 ∧ digits * pow10 zeros = n ∧
      shortestDecimal tie rank = ⟨digits, .ofNat zeros⟩ := by
  obtain ⟨lead, hlead, hlower, -⟩ := leadingPower_whole h hn
  have hbound : lead ≤ 15 := by
    apply Nat.le_of_not_lt
    intro hlarge
    have hpow : pow10 16 ≤ pow10 lead := Nat.pow_le_pow_right (by decide) hlarge
    have hmax : pow2 53 < pow10 16 := by decide
    omega
  have hgrid : ∀ i < lead + 1, Grid n rank (i + 1) (lead - i) := by
    intro i hi
    refine ⟨hn, hrank, ?_, ?_, by omega⟩
    · rw [hlead, Int.ofNat_eq_natCast]
      omega
    · have hle : pow10 (lead - i) ≤ pow10 lead := Nat.pow_le_pow_right (by decide) (by omega)
      exact Nat.ne_of_gt (Nat.div_pos (Nat.le_trans hle hlower) (pow10_pos _))
  -- All digits suffice, so the search ends on a grid of whole numbers.
  have hfound : ((List.range (lead + 1)).findSome? fun i => withDigits? tie rank (i + 1)).isSome := by
    rw [List.findSome?_isSome_iff]
    refine ⟨lead, List.mem_range.mpr (Nat.lt_succ_self lead), ?_⟩
    have hdvd : pow10 (lead - lead) ∣ n := by
      rw [Nat.sub_self]
      exact Nat.one_dvd n
    rw [(hgrid lead (Nat.lt_succ_self lead)).withDigits?_of_dvd hdvd]
    rfl
  obtain ⟨d, hd⟩ := Option.isSome_iff_exists.mp hfound
  have hshortest : shortestDecimal tie rank = d := by
    have hrange : List.range 17 = List.range (lead + 1 + (16 - lead)) := congrArg _ (by omega)
    rw [shortestDecimal, hrange, List.range_add, List.findSome?_append, hd, Option.some_or,
      Option.getD_some]
  obtain ⟨i, hi, hdigits⟩ := List.exists_of_findSome?_eq_some hd
  have hi' := hgrid i (List.mem_range.mp hi)
  by_cases hdvd : pow10 (lead - i) ∣ n
  · rw [hi'.withDigits?_of_dvd hdvd] at hdigits
    cases hdigits
    exact ⟨_, _, hi'.leading, Nat.div_mul_cancel hdvd, hshortest⟩
  · rw [hi'.withDigits?_of_not_dvd hdvd] at hdigits
    cases hdigits

end Shortest

namespace Binary64

theorem plainText_whole {n : Nat} {rank : Fin magnitudeCount} (negative : Bool)
    (hn : n ≤ pow2 53) (hrank : rank.val = wholeRank n) :
    (finite negative rank).plainText = signed negative (Nat.toDigits 10 n) := by
  have hunits := unitsOfRank_wholeRank hn
  rw [← hrank] at hunits
  unfold plainText
  by_cases h : n = 0
  · rw [h, Nat.zero_mul, unitsOfRank_eq_zero] at hunits
    simp only [if_pos hunits, h]
    rfl
  · have hne : rank.val ≠ 0 := by
      intro hzero
      rw [hzero, unitsOfRank_zero] at hunits
      exact absurd hunits (Nat.ne_of_lt (Nat.mul_pos (Nat.pos_of_ne_zero h) one_pos))
    obtain ⟨digits, zeros, hdigits, hvalue, hshortest⟩ :=
      Shortest.shortestDecimal_whole .up h hn hrank
    simp only [if_neg hne, hshortest, Decimal.positional_zeros hdigits, hvalue]

theorem ruleText_of_toInt? {x : Binary64} {n : Int} (h : x.toInt? = some n) :
    x.ruleText = if n.natAbs < pow10 15 then Json.intText n else x.plainText := by
  unfold ruleText
  rw [h]
  rfl

/-- Whole numbers of at most 53 bits are shown by their own digits as values too. -/
theorem ruleText_ofInt {n : Int} (h : n.natAbs ≤ pow2 53) : (ofInt n).ruleText = Json.intText n := by
  have hplain : (ofInt n).plainText = Json.intText n := by
    rw [ofInt_eq_finite h, plainText_whole _ h rfl, Json.intText]
  rw [ruleText_of_toInt? (toInt?_ofInt h), hplain, ite_self]

end Binary64

end ColumnRules
