import Catena.Proofs.Number.Rounding

/-!
# Decimals that read back

The pattern nearest to a decimal is told by its value (`Decimal.toPattern_congr`), and the decimal that `shortest`
finds has the pattern that it was found for (`toPattern_shortest`): either it was tried, or it is the magnitude itself.
-/

namespace Catena.Number

theorem Decimal.toPattern_congr {d d' : Decimal} (h : d.value = d'.value) : d.toPattern = d'.toPattern := by
  refine nearest_congr d.denominator_pos d'.denominator_pos ?_
  rw [d.numerator_div_denominator, d'.numerator_div_denominator, h]

/-- A decimal with the value of a pattern has that pattern. -/
theorem Decimal.toPattern_of_value {d : Decimal} {p : ℕ} (hp : p < infinitePattern)
    (h : d.value = (Binary.ofPattern p).value) : d.toPattern = p := by
  have heq : nearest d.numerator d.denominator =
      nearest (Binary.ofPattern p).numerator (Binary.ofPattern p).denominator := by
    refine nearest_congr d.denominator_pos (Binary.ofPattern p).denominator_pos ?_
    rw [d.numerator_div_denominator, (Binary.ofPattern p).numerator_div_denominator, h]
  exact heq.trans (nearest_ofPattern hp)

theorem Decimal.toPattern_zero (e : ℤ) : (⟨0, e⟩ : Decimal).toPattern = 0 := by
  simp [toPattern, numerator, nearest]

/-- What is found on a grid has been tried. -/
private theorem toPattern_of_nearestOnGrid? {b : Binary} {p : ℕ} {grid : ℤ} {d : Decimal}
    (h : nearestOnGrid? b p grid = some d) : d.toPattern = p := by
  unfold nearestOnGrid? at h
  dsimp only at h
  split at h
  · rename_i hlow hhigh
    simp only [Option.some.injEq] at h
    subst h
    split
    · simpa using hlow
    · split
      · simpa using hhigh
      · split
        · simpa using hlow
        · simpa using hhigh
  · rename_i hlow _
    cases h
    simpa using hlow
  · rename_i _ hhigh
    cases h
    simpa using hhigh
  · cases h

/-- Halves are fifths of tens. -/
private theorem Binary.value_toDecimal (b : Binary) : b.toDecimal.value = b.value := by
  unfold toDecimal
  split
  · rename_i h
    have hzero : (-b.exponent).toNat = 0 := by omega
    have hvalue := b.numerator_div_denominator
    have hden : b.denominator = 1 := by
      unfold Binary.denominator
      rw [hzero]
      rfl
    rw [hden, Nat.cast_one, div_one] at hvalue
    simp [Decimal.value, hvalue]
  · rename_i h
    obtain ⟨k, hk⟩ : ∃ k : ℕ, b.exponent = -(k : ℤ) := ⟨(-b.exponent).toNat, by omega⟩
    have hnat : (-b.exponent).toNat = k := by omega
    have hten : (10 : ℚ) ^ k = 5 ^ k * 2 ^ k := by
      rw [← mul_pow]
      norm_num
    have hfive : ((Nat.pow 5 k : ℕ) : ℚ) = 5 ^ k := by exact_mod_cast rfl
    unfold Decimal.value Binary.value
    rw [hnat]
    simp only [hk, zpow_neg, zpow_natCast, Nat.cast_mul, hfive, hten]
    field_simp

/-- The shortest decimal of a pattern has that pattern. -/
theorem toPattern_shortest {p : ℕ} (hp : p < infinitePattern) : (shortest p).toPattern = p := by
  unfold shortest
  dsimp only
  cases hfound : (List.range 17).findSome? fun (n : ℕ) =>
      nearestOnGrid? (Binary.ofPattern p) p (decade (Binary.ofPattern p) - 1 - n) with
  | some d =>
    obtain ⟨n, -, hn⟩ := List.exists_of_findSome?_eq_some hfound
    exact toPattern_of_nearestOnGrid? hn
  | none =>
    -- that 17 digits are enough need not be known: the magnitude itself stands in
    exact Decimal.toPattern_of_value hp (Binary.value_toDecimal _)

/-! ### Decimals out of range -/

/-- Decimals from `10 ^ 309` on are infinite. -/
theorem Decimal.toPattern_eq_infinitePattern {d : Decimal} (h : (10 : ℚ) ^ (309 : ℤ) ≤ d.value) :
    d.toPattern = infinitePattern := by
  refine nearest_eq_infinitePattern d.denominator_pos ?_
  rw [d.numerator_div_denominator]
  have hle : (2 : ℕ) ^ 1024 ≤ 10 ^ 309 := by decide +kernel
  have hle' : (2 : ℚ) ^ (1024 : ℤ) ≤ 10 ^ (309 : ℤ) := by exact_mod_cast hle
  exact le_trans hle' h

/-- Decimals below `10 ^ -324` are zero. -/
theorem Decimal.toPattern_eq_zero {d : Decimal} (h : d.value < (10 : ℚ) ^ (-324 : ℤ)) : d.toPattern = 0 := by
  refine nearest_eq_zero d.denominator_pos ?_
  rw [d.numerator_div_denominator]
  have hlt : (2 : ℕ) ^ 1075 < 10 ^ 324 := by decide +kernel
  have hinv : (10 : ℚ) ^ (-324 : ℤ) < 2 ^ (-1075 : ℤ) := by
    rw [zpow_neg, zpow_neg]
    refine inv_strictAnti₀ (by positivity) ?_
    exact_mod_cast hlt
  exact lt_trans h hinv

end Catena.Number
