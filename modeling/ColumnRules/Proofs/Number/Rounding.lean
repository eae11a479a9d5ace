import ColumnRules.Number.Shortest

/-!
# Rounding finite values

A value of the grid is the nearest value to itself, so reading the exact expansion of a magnitude
gives the magnitude back, and with it every decimal that the search for the shortest one answers.
Only ratios count: a common factor of numerator and denominator changes no rounding. And rounding
keeps the order.
-/

set_option autoImplicit false

namespace ColumnRules

theorem pow2_pos (k : Nat) : 0 < pow2 k := Nat.pow_pos (by decide)

theorem pow10_pos (k : Nat) : 0 < pow10 k := Nat.pow_pos (by decide)

theorem mul_pow5_mul_pow2 (n k : Nat) : n * Nat.pow 5 k * pow2 k = pow10 k * n := by
  have hpow : pow10 k = Nat.pow 5 k * pow2 k := Nat.mul_pow 5 2 k
  rw [hpow, Nat.mul_assoc, Nat.mul_comm]

theorem pow2_le_mul_pow5 {n : Nat} (h : 0 < n) (k : Nat) : pow2 k ≤ n * Nat.pow 5 k :=
  Nat.le_trans (Nat.pow_le_pow_left (by decide) k) (Nat.le_mul_of_pos_left _ h)

theorem le_log2 {n k : Nat} (h : pow2 k ≤ n) : k ≤ n.log2 :=
  (Nat.le_log2 (Nat.ne_of_gt (Nat.lt_of_lt_of_le (pow2_pos k) h))).mpr h

theorem pow2_add (m n : Nat) : pow2 (m + n) = pow2 m * pow2 n := Nat.pow_add 2 m n

theorem pow2_split {k m n : Nat} (h : k = m + n) : pow2 k = pow2 m * pow2 n := by
  rw [h, pow2_add]

theorem pow10_add (m n : Nat) : pow10 (m + n) = pow10 m * pow10 n := Nat.pow_add 10 m n

theorem pow2_le_pow2 {m n : Nat} (h : m ≤ n) : pow2 m ≤ pow2 n :=
  Nat.pow_le_pow_right (by decide) h

theorem lt_pow2_log2 (n : Nat) : n < pow2 (n.log2 + 1) := Nat.lt_log2_self

theorem pow2_log2_le {n : Nat} (h : n ≠ 0) : pow2 n.log2 ≤ n := Nat.log2_self_le h

theorem log2_mono {a b : Nat} (h : a ≤ b) : a.log2 ≤ b.log2 := by
  by_cases ha : a = 0
  · rw [ha]
    exact Nat.zero_le _
  · exact le_log2 (Nat.le_trans (pow2_log2_le ha) h)

theorem log2_mul_pow2 {n : Nat} (h : n ≠ 0) (k : Nat) : (n * pow2 k).log2 = n.log2 + k := by
  have hpos : 0 < n * pow2 k := Nat.mul_pos (Nat.pos_of_ne_zero h) (pow2_pos k)
  apply (Nat.log2_eq_iff (Nat.ne_of_gt hpos)).mpr
  constructor
  · rw [Nat.pow_add]
    exact Nat.mul_le_mul_right _ (pow2_log2_le h)
  · rw [Nat.add_right_comm, Nat.pow_add]
    exact Nat.mul_lt_mul_of_pos_right (lt_pow2_log2 n) (pow2_pos k)

namespace Binary64

theorem one_pos : 0 < one := pow2_pos 1074

theorem halfEven_scale {k : Nat} (hk : 0 < k) (num den : Nat) :
    halfEven (k * num) (k * den) = halfEven num den := by
  have hdiv : k * num / (k * den) = num / den := Nat.mul_div_mul_left num den hk
  have hmod : k * num % (k * den) = k * (num % den) := Nat.mul_mod_mul_left k num den
  have htwice : 2 * (k * (num % den)) = k * (2 * (num % den)) := Nat.mul_left_comm 2 k _
  simp only [halfEven, hdiv, hmod, htwice, Nat.mul_lt_mul_left hk]

theorem halfEven_mul_self {den : Nat} (h : 0 < den) (n : Nat) : halfEven (n * den) den = n := by
  have hdiv : n * den / den = n := Nat.mul_div_cancel n h
  have hmod : n * den % den = 0 := Nat.mul_mod_left n den
  simp only [halfEven, hdiv, hmod, Nat.mul_zero, if_pos h]

theorem nearestRank_scale {k : Nat} (hk : 0 < k) (num den : Nat) :
    nearestRank (k * num) (k * den) = nearestRank num den := by
  simp only [nearestRank, Nat.mul_div_mul_left num den hk, Nat.mul_assoc, halfEven_scale hk]

theorem ofRatio_scale {k : Nat} (hk : 0 < k) (negative : Bool) (num den : Nat) :
    ofRatio negative (k * num) (k * den) = ofRatio negative num den := by
  simp only [ofRatio, nearestRank_scale hk]

theorem halfEven_bounds (num den : Nat) :
    num / den ≤ halfEven num den ∧ halfEven num den ≤ num / den + 1 := by
  unfold halfEven
  simp only
  split
  · omega
  split
  · omega
  · omega

theorem halfEven_mono {a b den : Nat} (h : a ≤ b) : halfEven a den ≤ halfEven b den := by
  have ha := halfEven_bounds a den
  have hb := halfEven_bounds b den
  rcases Nat.lt_or_eq_of_le (Nat.div_le_div_right (c := den) h) with hlt | heq
  · omega
  · have hrest : a % den ≤ b % den := by
      have hdiva := Nat.div_add_mod a den
      have hdivb := Nat.div_add_mod b den
      rw [heq] at hdiva
      omega
    simp only [halfEven, heq]
    generalize b / den = whole, a % den = r, b % den = s at hrest
    grind

/-- Rounding keeps the order. Between two exponents lies a power of two, which is its own
rounding. -/
theorem nearestRank_mono {a b : Nat} (h : a ≤ b) : nearestRank a 1 ≤ nearestRank b 1 := by
  have hlog := log2_mono h
  simp only [nearestRank, Nat.div_one, Nat.one_mul]
  rcases Nat.lt_or_eq_of_le (Nat.sub_le_sub_right hlog 52) with hlt | heq
  · have hb : b ≠ 0 := by
      rintro rfl
      rw [Nat.log2_zero, Nat.zero_sub] at hlt
      omega
    have hupper : halfEven a (pow2 (a.log2 - 52)) ≤ pow2 53 := by
      rw [← halfEven_mul_self (pow2_pos (a.log2 - 52)) (pow2 53), ← pow2_add]
      apply halfEven_mono
      exact Nat.le_of_lt (Nat.lt_of_lt_of_le (lt_pow2_log2 a) (pow2_le_pow2 (by omega)))
    have hlower : pow2 52 ≤ halfEven b (pow2 (b.log2 - 52)) := by
      rw [← halfEven_mul_self (pow2_pos (b.log2 - 52)) (pow2 52), ← pow2_add]
      apply halfEven_mono
      have hexp : 52 + (b.log2 - 52) = b.log2 := by omega
      rw [hexp]
      exact pow2_log2_le hb
    have h53 : pow2 53 = pow2 52 + pow2 52 := by decide
    have hstep : (a.log2 - 52) * pow2 52 + pow2 52 ≤ (b.log2 - 52) * pow2 52 := by
      rw [← Nat.succ_mul]
      exact Nat.mul_le_mul_right _ hlt
    omega
  · rw [heq]
    exact Nat.add_le_add_left (halfEven_mono h) _

/-- Whatever is below one is far from overflowing. -/
theorem nearestRank_lt {num den : Nat} (h : num / den < one) :
    nearestRank num den < magnitudeCount := by
  have hlog : (num / den).log2 < 1074 := by
    by_cases h₀ : num / den = 0
    · rw [h₀, Nat.log2_zero]
      decide
    · apply Nat.lt_of_not_le
      intro hle
      have hone : one ≤ num / den := Nat.le_trans (pow2_le_pow2 hle) (pow2_log2_le h₀)
      omega
  have hhalf : halfEven num (den * pow2 ((num / den).log2 - 52)) ≤ pow2 53 := by
    apply Nat.le_trans (halfEven_bounds _ _).2
    rw [← Nat.div_div_eq_div_mul]
    apply Nat.div_lt_of_lt_mul
    rw [← pow2_add]
    exact Nat.lt_of_lt_of_le (lt_pow2_log2 _) (pow2_le_pow2 (by omega))
  have hdropped : ((num / den).log2 - 52) * pow2 52 ≤ 1021 * pow2 52 :=
    Nat.mul_le_mul_right _ (by omega)
  have h53 : pow2 53 = pow2 52 + pow2 52 := by decide
  have hpos := pow2_pos 52
  simp only [nearestRank, magnitudeCount]
  omega

theorem isFinite_ofRatio {num den : Nat} (h : num / den < one) (negative : Bool) :
    (ofRatio negative num den).isFinite = true := by
  unfold ofRatio
  simp only
  split
  · rfl
  · rename_i hlarge
    exact absurd (nearestRank_lt h) hlarge

theorem unitsOfRank_normal {m : Nat} (h₁ : pow2 52 ≤ m) (h₂ : m < pow2 53) (k : Nat) :
    unitsOfRank (k * pow2 52 + m) = m * pow2 k := by
  have h53 : pow2 53 = pow2 52 + pow2 52 := by decide
  obtain ⟨f, rfl⟩ := Nat.exists_eq_add_of_le h₁
  have hf : f < pow2 52 := by omega
  have hsplit : k * pow2 52 + (pow2 52 + f) = f + (k + 1) * pow2 52 := by
    rw [Nat.succ_mul]
    omega
  have hlarge : ¬ f + (k + 1) * pow2 52 < pow2 52 := by
    rw [Nat.succ_mul]
    omega
  rw [hsplit, unitsOfRank, if_neg hlarge, Nat.add_mul_mod_self_right, Nat.mod_eq_of_lt hf,
    Nat.add_mul_div_right _ _ (pow2_pos 52), Nat.div_eq_of_lt hf, Nat.zero_add, Nat.add_sub_cancel]

theorem nearestRank_normal {m : Nat} (h₁ : pow2 52 ≤ m) (h₂ : m < pow2 53) (k : Nat) :
    nearestRank (m * pow2 k) 1 = k * pow2 52 + m := by
  have hm : m ≠ 0 := Nat.ne_of_gt (Nat.lt_of_lt_of_le (pow2_pos 52) h₁)
  have hlog : (m * pow2 k).log2 - 52 = k := by
    rw [log2_mul_pow2 hm, (Nat.log2_eq_iff hm).mpr ⟨h₁, h₂⟩, Nat.add_sub_cancel_left]
  simp only [nearestRank, Nat.div_one, Nat.one_mul, hlog, halfEven_mul_self (pow2_pos k)]

/-- A rank past the subnormal ones has an exponent and a significand of 53 bits. -/
theorem exists_normal {rank : Nat} (h : ¬ rank < pow2 52) :
    ∃ k m, pow2 52 ≤ m ∧ m < pow2 53 ∧ rank = k * pow2 52 + m := by
  have hmod : rank % pow2 52 < pow2 52 := Nat.mod_lt _ (pow2_pos 52)
  have hsplit : pow2 52 * (rank / pow2 52) + rank % pow2 52 = rank := Nat.div_add_mod rank _
  have h53 : pow2 53 = pow2 52 + pow2 52 := by decide
  have hexp : 0 < rank / pow2 52 := (Nat.one_le_div_iff (pow2_pos 52)).mpr (Nat.not_lt.mp h)
  obtain ⟨k, hk⟩ := Nat.exists_eq_succ_of_ne_zero (Nat.ne_of_gt hexp)
  rw [hk, Nat.mul_succ, Nat.mul_comm] at hsplit
  exact ⟨k, pow2 52 + rank % pow2 52, Nat.le_add_right _ _, by omega, by omega⟩

theorem nearestRank_unitsOfRank (rank : Nat) : nearestRank (unitsOfRank rank) 1 = rank := by
  by_cases h : rank < pow2 52
  · have hlog : rank.log2 - 52 = 0 := by
      by_cases h₀ : rank = 0
      · simp [h₀]
      · have := (Nat.log2_lt h₀).mpr h
        omega
    have hself := halfEven_mul_self Nat.one_pos rank
    rw [Nat.mul_one] at hself
    simp only [unitsOfRank, if_pos h, nearestRank, Nat.div_one, hlog, Nat.zero_mul, Nat.zero_add]
    exact hself
  · obtain ⟨k, m, h₁, h₂, rfl⟩ := exists_normal h
    rw [unitsOfRank_normal h₁ h₂, nearestRank_normal h₁ h₂]

theorem ofRatio_unitsOfRank (negative : Bool) (rank : Fin magnitudeCount) :
    ofRatio negative (unitsOfRank rank) 1 = finite negative rank := by
  simp only [ofRatio, nearestRank_unitsOfRank, dif_pos rank.isLt]

theorem unitsOfRank_pos {rank : Nat} (h : rank ≠ 0) : 0 < unitsOfRank rank := by
  unfold unitsOfRank
  split
  · exact Nat.pos_of_ne_zero h
  · exact Nat.mul_pos (Nat.lt_of_lt_of_le (pow2_pos 52) (Nat.le_add_right _ _)) (pow2_pos _)

@[simp] theorem unitsOfRank_zero : unitsOfRank 0 = 0 := rfl

theorem unitsOfRank_eq_zero {rank : Nat} : unitsOfRank rank = 0 ↔ rank = 0 := by
  constructor
  · intro h
    by_cases hrank : rank = 0
    · exact hrank
    · exact absurd h (Nat.ne_of_gt (unitsOfRank_pos hrank))
  · rintro rfl
    rfl

end Binary64

namespace Decimal

open Binary64

/-- The sign is only carried along. -/
theorem toBinary64_sign {d : Decimal} {rank : Fin magnitudeCount}
    (h : d.toBinary64 false = .finite false rank) (negative : Bool) :
    d.toBinary64 negative = .finite negative rank := by
  unfold toBinary64 at h ⊢
  split at h
  · rename_i h₀
    cases h
    simp only [if_pos h₀]
    rfl
  rename_i h₀
  split at h
  · cases h
  rename_i h₁
  split at h
  · rename_i h₂
    cases h
    simp only [if_neg h₀, if_neg h₁, if_pos h₂]
    rfl
  rename_i h₂
  simp only [if_neg h₀, if_neg h₁, if_neg h₂]
  simp only [ofRatio] at h ⊢
  split at h
  · rename_i hlt
    cases h
    simp only [dif_pos hlt]
  · cases h

/-- Trailing zeros in place of a positive power of ten. -/
theorem toBinary64_whole {d : Decimal} {e : Nat} (he : d.exponent = .ofNat e)
    {negative : Bool} {rank : Fin magnitudeCount} (h : d.toBinary64 negative = .finite negative rank) :
    Decimal.toBinary64 negative ⟨d.digits * pow10 e, 0⟩ = .finite negative rank := by
  have hpow := pow10_pos e
  obtain ⟨digits, exponent⟩ := d
  obtain rfl : exponent = .ofNat e := he
  unfold toBinary64 at h ⊢
  by_cases h₀ : digits = 0
  · simp only [h₀, Nat.zero_mul, if_true] at h ⊢
    exact h
  have h₀' : digits * pow10 e ≠ 0 := Nat.ne_of_gt (Nat.mul_pos (Nat.pos_of_ne_zero h₀) hpow)
  simp only [if_neg h₀] at h
  split at h
  · cases h
  rw [if_neg (show ¬ ((digits.log2 : Int) + 1 + Int.ofNat e < -400) by
    have := Int.natCast_nonneg e
    simp only [Int.ofNat_eq_natCast]
    omega)] at h
  simp only [if_neg h₀']
  rw [if_neg (by decide), if_neg (by omega)]
  simpa only [ratio, pow10, Nat.pow_eq, Nat.pow_zero, Nat.mul_one] using h

theorem ratio_neg (digits places scale : Nat) :
    ratio ⟨digits, -places⟩ scale = (digits * scale, pow10 places) := by
  cases places with
  | zero => simp [ratio, pow10]
  | succ n => rfl

/-- A decimal fraction without a whole part does not overflow. -/
theorem isFinite_toBinary64 {digits places : Nat} (h : digits < pow10 places) (negative : Bool) :
    (toBinary64 negative ⟨digits, -places⟩).isFinite = true := by
  unfold toBinary64
  split
  · rfl
  split
  · simp only at *
    omega
  split
  · rfl
  have hscaled : digits * one < pow10 places * one :=
    Nat.mul_lt_mul_of_pos_right h Binary64.one_pos
  rw [ratio_neg]
  exact isFinite_ofRatio (Nat.div_lt_of_lt_mul hscaled) negative

/-- That many digits keep the magnitude from vanishing, so the ratio is rounded as it stands. -/
theorem toBinary64_of_units {n k : Nat} {rank : Fin magnitudeCount} (hle : pow2 k ≤ n)
    (hnum : n * one = pow10 k * unitsOfRank rank) :
    Decimal.toBinary64 false ⟨n, -k⟩ = .finite false rank := by
  have hpos : 0 < n := Nat.lt_of_lt_of_le (pow2_pos k) hle
  have hsmall : ¬ 400 < (-k : Int) := by omega
  have hlarge : ¬ ((n.log2 : Int) + 1 + -k < -400) := by
    have hlog := le_log2 hle
    omega
  have hscale := ofRatio_scale (pow10_pos k) false (unitsOfRank rank) 1
  rw [Nat.mul_one] at hscale
  unfold toBinary64
  simp only [if_neg (Nat.ne_of_gt hpos), if_neg hsmall, if_neg hlarge]
  simp only [ratio_neg, hnum, hscale, ofRatio_unitsOfRank]

theorem toBinary64_exact {rank : Fin magnitudeCount} (h : rank.val ≠ 0) :
    (Shortest.exact rank).toBinary64 false = .finite false rank := by
  have hone : one = pow2 1074 := rfl
  have hexp : (-1074 : Int) = -(1074 : Nat) := rfl
  rw [Shortest.exact, hexp]
  -- Only as a variable the exponent is out of reach of evaluation.
  generalize (1074 : Nat) = k at hone ⊢
  have hnum := mul_pow5_mul_pow2 (unitsOfRank rank) k
  rw [← hone] at hnum
  exact toBinary64_of_units (pow2_le_mul_pow5 (unitsOfRank_pos h) k) hnum

end Decimal

theorem Shortest.toBinary64_withDigits? {tie : Tie} {rank : Fin magnitudeCount} {n : Nat}
    {d : Decimal} (h : Shortest.withDigits? tie rank n = some d) :
    d.toBinary64 false = .finite false rank := by
  unfold withDigits? at h
  simp only at h
  split at h
  · rename_i hbelow habove
    cases h
    split
    · exact of_decide_eq_true hbelow
    · exact of_decide_eq_true habove
  · rename_i hbelow _
    cases h
    exact of_decide_eq_true hbelow
  · rename_i _ habove
    cases h
    exact of_decide_eq_true habove
  · cases h

/-- The shortest decimal of a magnitude reads back as the magnitude. -/
theorem toBinary64_shortestDecimal (tie : Tie) {rank : Fin magnitudeCount} (h : rank.val ≠ 0) :
    (shortestDecimal tie rank).toBinary64 false = .finite false rank := by
  unfold shortestDecimal
  cases hfound : (List.range 17).findSome? fun n => Shortest.withDigits? tie rank (n + 1) with
  | none => exact Decimal.toBinary64_exact h
  | some d =>
    obtain ⟨n, _, hn⟩ := List.exists_of_findSome?_eq_some hfound
    exact Shortest.toBinary64_withDigits? hn

end ColumnRules
