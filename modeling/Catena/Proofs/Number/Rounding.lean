import Catena.Number.Decimal
import Mathlib.Algebra.Order.Field.Power
import Mathlib.Data.Int.Log
import Mathlib.Data.Rat.Floor
import Mathlib.Tactic.FieldSimp
import Mathlib.Tactic.Linarith
import Mathlib.Tactic.NormNum
import Mathlib.Tactic.Positivity

/-!
# Rounding a fraction to a binary number

`nearest` depends on the value of a fraction only, not on how it is written (`nearest_congr`).  It gives the pattern
of a binary magnitude back (`nearest_ofPattern`), infinity from `2 ^ 1024` on (`nearest_eq_infinitePattern`) and zero
below half of the smallest magnitude (`nearest_eq_zero`).
-/

namespace Catena.Number

/-! ### Powers with an integer exponent -/

/-- A power with an integer exponent is the quotient of two with natural ones. -/
private theorem pow_toNat_div_pow_toNat (a : ℚ) (e : ℤ) : a ^ e.toNat / a ^ (-e).toNat = a ^ e := by
  rcases le_total 0 e with h | h
  · have h1 : (-e).toNat = 0 := by omega
    rw [h1, pow_zero, div_one, ← zpow_natCast, Int.toNat_of_nonneg h]
  · have h1 : e.toNat = 0 := by omega
    have h2 : ((-e).toNat : ℤ) = -e := by omega
    rw [h1, pow_zero, ← zpow_natCast, h2, zpow_neg, one_div, inv_inv]

theorem pow2_pos (n : ℕ) : 0 < pow2 n := Nat.pow_pos (by decide)

theorem pow10_pos (n : ℕ) : 0 < pow10 n := Nat.pow_pos (by decide)

@[simp] theorem cast_pow2 (n : ℕ) : (pow2 n : ℚ) = 2 ^ n := by
  show ((2 ^ n : ℕ) : ℚ) = _
  push_cast
  rfl

@[simp] theorem cast_pow10 (n : ℕ) : (pow10 n : ℚ) = 10 ^ n := by
  show ((10 ^ n : ℕ) : ℚ) = _
  push_cast
  rfl

/-- The number that a magnitude is. -/
def Binary.value (b : Binary) : ℚ := b.mantissa * 2 ^ b.exponent

/-- The number that a decimal is. -/
def Decimal.value (d : Decimal) : ℚ := d.digits * 10 ^ d.exponent

theorem Binary.numerator_div_denominator (b : Binary) : (b.numerator : ℚ) / b.denominator = b.value := by
  unfold numerator denominator value
  rw [← pow_toNat_div_pow_toNat 2, Nat.cast_mul, cast_pow2, cast_pow2, mul_div_assoc]

theorem Decimal.numerator_div_denominator (d : Decimal) : (d.numerator : ℚ) / d.denominator = d.value := by
  unfold numerator denominator value
  rw [← pow_toNat_div_pow_toNat 10, Nat.cast_mul, cast_pow10, cast_pow10, mul_div_assoc]

theorem Binary.denominator_pos (b : Binary) : 0 < b.denominator := pow2_pos _

theorem Decimal.denominator_pos (d : Decimal) : 0 < d.denominator := pow10_pos _

/-! ### Rounding a quotient -/

private theorem roundHalfEven_scale (num den : ℕ) {k : ℕ} (hk : 0 < k) :
    roundHalfEven (num * k) (den * k) = roundHalfEven num den := by
  have htwice : 2 * (num % den * k) = 2 * (num % den) * k := by ring
  unfold roundHalfEven
  simp only [Nat.mul_div_mul_right _ _ hk, Nat.mul_mod_mul_right, htwice, Nat.mul_lt_mul_right hk]

private theorem roundHalfEven_congr {num den num' den' : ℕ} (hd : 0 < den) (hd' : 0 < den')
    (h : num * den' = num' * den) : roundHalfEven num den = roundHalfEven num' den' := by
  rw [← roundHalfEven_scale num den hd', ← roundHalfEven_scale num' den' hd, h, Nat.mul_comm den]

private theorem roundHalfEven_mul (m : ℕ) {den : ℕ} (hd : 0 < den) : roundHalfEven (m * den) den = m := by
  simp [roundHalfEven, Nat.mul_div_cancel m hd, hd]

private theorem le_roundHalfEven {m num den : ℕ} (hd : 0 < den) (h : m * den ≤ num) : m ≤ roundHalfEven num den := by
  have hq : m ≤ num / den := (Nat.le_div_iff_mul_le hd).2 h
  unfold roundHalfEven
  dsimp only
  split
  · exact hq
  · split <;> omega

private theorem roundHalfEven_eq_zero {num den : ℕ} (h : 2 * num < den) : roundHalfEven num den = 0 := by
  have hlt : num < den := by omega
  simp [roundHalfEven, Nat.div_eq_of_lt hlt, Nat.mod_eq_of_lt hlt, h]

/-! ### The exponent -/

private theorem zpow_mul_le_iff {num den : ℕ} (hd : 0 < den) (e : ℤ) (k : ℕ) :
    den * pow2 e.toNat * pow2 k ≤ num * pow2 (-e).toNat ↔ (2 : ℚ) ^ (e + k) ≤ num / den := by
  have hden : (0 : ℚ) < den := by exact_mod_cast hd
  have hneg : (0 : ℚ) < 2 ^ (-e).toNat := by positivity
  rw [← Nat.cast_le (α := ℚ), le_div_iff₀ hden, zpow_add₀ (by norm_num),
    ← pow_toNat_div_pow_toNat 2 e, zpow_natCast]
  push_cast
  rw [cast_pow2, cast_pow2, cast_pow2, div_mul_eq_mul_div, div_mul_eq_mul_div, div_le_iff₀ hneg]
  constructor <;> intro h <;> linarith

/-- The exponent is that of the leading binary digit, less 52, and at least the least one. -/
theorem exponentOf_eq {num den : ℕ} (hn : 0 < num) (hd : 0 < den) :
    exponentOf num den = max (Int.log 2 ((num : ℚ) / den) - 52) leastExponent := by
  have hnum : (0 : ℚ) < num := by exact_mod_cast hn
  have hden : (0 : ℚ) < den := by exact_mod_cast hd
  have hv : (0 : ℚ) < (num : ℚ) / den := by positivity
  have hn1 : (2 : ℚ) ^ (num.log2 : ℤ) ≤ num := by exact_mod_cast Nat.log2_self_le (by omega)
  have hn2 : (num : ℚ) < 2 ^ ((num.log2 : ℤ) + 1) := by exact_mod_cast Nat.lt_log2_self
  have hd1 : (2 : ℚ) ^ (den.log2 : ℤ) ≤ den := by exact_mod_cast Nat.log2_self_le (by omega)
  have hd2 : (den : ℚ) < 2 ^ ((den.log2 : ℤ) + 1) := by exact_mod_cast Nat.lt_log2_self
  -- the quotient lies within a factor of two of the quotient of the leading digits
  have hlow : (num.log2 : ℤ) - den.log2 - 1 ≤ Int.log 2 ((num : ℚ) / den) := by
    rw [← Int.zpow_le_iff_le_log (by norm_num) hv, le_div_iff₀ hden]
    calc (2 : ℚ) ^ ((num.log2 : ℤ) - den.log2 - 1) * den
        ≤ 2 ^ ((num.log2 : ℤ) - den.log2 - 1) * 2 ^ ((den.log2 : ℤ) + 1) := by gcongr
      _ = 2 ^ (num.log2 : ℤ) := by rw [← zpow_add₀ (by norm_num)]; congr 1; ring
      _ ≤ num := hn1
  have hhigh : Int.log 2 ((num : ℚ) / den) < (num.log2 : ℤ) - den.log2 + 1 := by
    rw [← Int.lt_zpow_iff_log_lt (by norm_num) hv, div_lt_iff₀ hden]
    calc (num : ℚ) < 2 ^ ((num.log2 : ℤ) + 1) := hn2
      _ = 2 ^ ((num.log2 : ℤ) - den.log2 + 1) * 2 ^ (den.log2 : ℤ) := by
        rw [← zpow_add₀ (by norm_num)]; congr 1; ring
      _ ≤ 2 ^ ((num.log2 : ℤ) - den.log2 + 1) * den := by gcongr
  have hcond := @zpow_mul_le_iff num den hd ((num.log2 : ℤ) - den.log2 - 53) 53
  rw [show ((2 : ℚ)) = ((2 : ℕ) : ℚ) by norm_num, Int.zpow_le_iff_le_log (by norm_num) hv] at hcond
  unfold exponentOf
  dsimp only
  by_cases h : den * pow2 ((num.log2 : ℤ) - den.log2 - 53).toNat * pow2 53 ≤
      num * pow2 (-((num.log2 : ℤ) - den.log2 - 53)).toNat
  · have := hcond.1 h
    rw [if_pos h]
    congr 1
    omega
  · have := mt hcond.2 h
    rw [if_neg h]
    congr 1
    omega

/-! ### The nearest pattern -/

/-- The pattern nearest to a fraction is told by its value. -/
theorem nearest_congr {num den num' den' : ℕ} (hd : 0 < den) (hd' : 0 < den')
    (h : (num : ℚ) / den = num' / den') : nearest num den = nearest num' den' := by
  have hden : (den : ℚ) ≠ 0 := by exact_mod_cast hd.ne'
  have hden' : (den' : ℚ) ≠ 0 := by exact_mod_cast hd'.ne'
  have hcross : num * den' = num' * den := by
    rw [div_eq_div_iff hden hden'] at h
    exact_mod_cast h
  by_cases hn : num = 0
  · have hn' : num' = 0 := by
      rw [hn, Nat.zero_mul] at hcross
      rcases Nat.mul_eq_zero.1 hcross.symm with h0 | h0
      · exact h0
      · omega
    simp [nearest, hn, hn']
  · have hn' : num' ≠ 0 := by
      rintro rfl
      rw [Nat.zero_mul] at hcross
      rcases Nat.mul_eq_zero.1 hcross with h0 | h0 <;> omega
    have hexp : exponentOf num den = exponentOf num' den' := by
      rw [exponentOf_eq (by omega) hd, exponentOf_eq (by omega) hd', h]
    simp only [nearest, hn, hn', ↓reduceIte, hexp]
    rw [roundHalfEven_congr (Nat.mul_pos hd (pow2_pos _)) (Nat.mul_pos hd' (pow2_pos _))]
    generalize pow2 (exponentOf num' den').toNat = k
    generalize pow2 (-exponentOf num' den').toNat = l
    calc num * l * (den' * k) = num * den' * (k * l) := by ring
      _ = num' * den * (k * l) := by rw [hcross]
      _ = num' * l * (den * k) := by ring

/-- A magnitude whose mantissa is filled up, or as small as can be, has the exponent that its value calls for. -/
private theorem exponentOf_binary {b : Binary} (hpos : 0 < b.mantissa) (hlt : b.mantissa < pow2 53)
    (he : leastExponent ≤ b.exponent) (hfull : pow2 52 ≤ b.mantissa ∨ b.exponent = leastExponent) :
    exponentOf b.numerator b.denominator = b.exponent := by
  have hn : 0 < b.numerator := Nat.mul_pos hpos (pow2_pos _)
  have hvalue : (0 : ℚ) < b.mantissa * 2 ^ b.exponent := by
    have : (0 : ℚ) < b.mantissa := by exact_mod_cast hpos
    positivity
  have hm : (b.mantissa : ℚ) < 2 ^ (53 : ℤ) := by
    have : (b.mantissa : ℚ) < (pow2 53 : ℕ) := by exact_mod_cast hlt
    simpa using this
  have hlog : Int.log 2 ((b.mantissa : ℚ) * 2 ^ b.exponent) < 53 + b.exponent := by
    rw [← Int.lt_zpow_iff_log_lt (by norm_num) hvalue, Nat.cast_ofNat, zpow_add₀ (by norm_num)]
    gcongr
  rw [exponentOf_eq hn b.denominator_pos, b.numerator_div_denominator]
  unfold Binary.value
  rcases hfull with hfull | hleast
  · have hm' : (2 : ℚ) ^ (52 : ℤ) ≤ b.mantissa := by
      have : ((pow2 52 : ℕ) : ℚ) ≤ b.mantissa := by exact_mod_cast hfull
      simpa using this
    have hlog' : 52 + b.exponent ≤ Int.log 2 ((b.mantissa : ℚ) * 2 ^ b.exponent) := by
      rw [← Int.zpow_le_iff_le_log (by norm_num) hvalue, Nat.cast_ofNat, zpow_add₀ (by norm_num)]
      gcongr
    omega
  · omega

private theorem nearest_binary {b : Binary} (hpos : 0 < b.mantissa) (hlt : b.mantissa < pow2 53)
    (he : leastExponent ≤ b.exponent) (hfull : pow2 52 ≤ b.mantissa ∨ b.exponent = leastExponent) :
    nearest b.numerator b.denominator = min b.pattern infinitePattern := by
  have hn : b.numerator ≠ 0 := (Nat.mul_pos hpos (pow2_pos _)).ne'
  have hround : roundHalfEven (b.numerator * pow2 (-b.exponent).toNat) (b.denominator * pow2 b.exponent.toNat) =
      b.mantissa := by
    have hscale : b.numerator * pow2 (-b.exponent).toNat =
        b.mantissa * (b.denominator * pow2 b.exponent.toNat) := by
      unfold Binary.numerator Binary.denominator
      ring
    rw [hscale, roundHalfEven_mul _ (Nat.mul_pos b.denominator_pos (pow2_pos _))]
  simp only [nearest, hn, ↓reduceIte, exponentOf_binary hpos hlt he hfull, hround]

/-- The value of a pattern has that pattern. -/
theorem nearest_ofPattern {p : ℕ} (hp : p < infinitePattern) :
    nearest (Binary.ofPattern p).numerator (Binary.ofPattern p).denominator = p := by
  have h52 : pow2 52 = 2 ^ 52 := rfl
  have h53 : pow2 53 = 2 ^ 53 := rfl
  have hleast : leastExponent = -1074 := rfl
  by_cases h0 : p = 0
  · subst h0
    rfl
  by_cases h : p < pow2 52
  · have hb : Binary.ofPattern p = ⟨p, leastExponent⟩ := if_pos h
    have hpattern : (⟨p, leastExponent⟩ : Binary).pattern = p := by simp [Binary.pattern]
    rw [h52] at h
    rw [hb, nearest_binary (Nat.pos_of_ne_zero h0) (by simp only [h53]; omega) le_rfl (.inr rfl), hpattern,
      Nat.min_eq_left hp.le]
  · have hb : Binary.ofPattern p = ⟨pow2 52 + p % pow2 52, (p / pow2 52 : ℕ) - 1 + leastExponent⟩ := if_neg h
    rw [h52] at h
    have hpattern : (Binary.ofPattern p).pattern = p := by
      simp only [hb, Binary.pattern, h52, hleast]
      omega
    rw [nearest_binary, hpattern, Nat.min_eq_left hp.le]
    all_goals simp only [hb, h52, h53, hleast]; omega

/-- Magnitudes of `2 ^ 1024` and more are infinite. -/
theorem nearest_eq_infinitePattern {num den : ℕ} (hd : 0 < den) (h : (2 : ℚ) ^ (1024 : ℤ) ≤ num / den) :
    nearest num den = infinitePattern := by
  have hv : (0 : ℚ) < num / den := lt_of_lt_of_le (by positivity) h
  have hn : num ≠ 0 := by
    rintro rfl
    simp at hv
  have hlog : 1024 ≤ Int.log 2 ((num : ℚ) / den) := (Int.zpow_le_iff_le_log (by norm_num) hv).1 (by exact_mod_cast h)
  have hexp : exponentOf num den = Int.log 2 ((num : ℚ) / den) - 52 := by
    rw [exponentOf_eq (by omega) hd]
    have : leastExponent = -1074 := rfl
    omega
  have hself : (2 : ℚ) ^ (exponentOf num den + (52 : ℕ)) ≤ num / den := by
    rw [hexp]
    have := Int.zpow_log_le_self (b := 2) (by norm_num) hv
    simpa using this
  have hround :
      pow2 52 ≤ roundHalfEven (num * pow2 (-exponentOf num den).toNat) (den * pow2 (exponentOf num den).toNat) := by
    apply le_roundHalfEven (Nat.mul_pos hd (pow2_pos _))
    rw [Nat.mul_comm]
    exact (zpow_mul_le_iff hd _ _).2 hself
  simp only [nearest, hn, ↓reduceIte, Binary.pattern]
  apply Nat.min_eq_right
  have hinf : infinitePattern = 2047 * 2 ^ 52 := rfl
  have h52 : pow2 52 = 2 ^ 52 := rfl
  have hleast : leastExponent = -1074 := rfl
  have hexp' : 2046 ≤ (exponentOf num den - leastExponent).toNat := by omega
  calc infinitePattern = 2046 * pow2 52 + pow2 52 := by omega
    _ ≤ _ := Nat.add_le_add (Nat.mul_le_mul_right _ hexp') hround

/-- Magnitudes of less than half of the smallest one are zero. -/
theorem nearest_eq_zero {num den : ℕ} (hd : 0 < den) (h : (num : ℚ) / den < 2 ^ (-1075 : ℤ)) : nearest num den = 0 := by
  have hleast : leastExponent = -1074 := rfl
  by_cases hn : num = 0
  · simp [nearest, hn]
  · have hv : (0 : ℚ) < num / den := by
      have h1 : (0 : ℚ) < num := by exact_mod_cast Nat.pos_of_ne_zero hn
      have h2 : (0 : ℚ) < den := by exact_mod_cast hd
      positivity
    have hlog : Int.log 2 ((num : ℚ) / den) < -1075 :=
      (Int.lt_zpow_iff_log_lt (by norm_num) hv).1 (by exact_mod_cast h)
    have hexp : exponentOf num den = leastExponent := by
      rw [exponentOf_eq (by omega) hd]
      omega
    have hsmall : 2 * (num * pow2 1074) < den * pow2 0 := by
      have hden : (0 : ℚ) < den := by exact_mod_cast hd
      have hpow : (2 : ℚ) ^ (-1075 : ℤ) = (2 * 2 ^ 1074)⁻¹ := by
        rw [← pow_succ', ← zpow_natCast, ← zpow_neg]
        rfl
      rw [hpow, div_lt_iff₀ hden, inv_mul_eq_div, lt_div_iff₀ (by positivity), ← cast_pow2] at h
      have h' : num * (2 * pow2 1074) < den := by exact_mod_cast h
      have h0 : pow2 0 = 1 := rfl
      rw [h0]
      linarith
    have hround : roundHalfEven (num * pow2 1074) (den * pow2 0) = 0 := roundHalfEven_eq_zero hsmall
    simp only [nearest, hn, ↓reduceIte, hexp, Binary.pattern]
    show min ((leastExponent - leastExponent).toNat * pow2 52 + roundHalfEven (num * pow2 1074) (den * pow2 0)) _ = 0
    rw [hround]
    rfl

end Catena.Number
