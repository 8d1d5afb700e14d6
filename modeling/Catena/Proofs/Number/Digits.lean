import Catena.Number.Reader
import Catena.Proofs.Number.Shortest

/-!
# Digits and the pattern they are read as

The value of digits is positional (`natOfDigits_append`), and the digits of a number have its value
(`natOfDigits_toDigits`).  A pattern is read from digits by the value alone: that no huge power of ten is ever computed
makes no difference (`patternOfDigits_eq`).
-/

namespace Catena.Number

open Catena.Text

/-- A text of ASCII digits. -/
def IsDigits (ds : List Char) : Prop := ∀ d ∈ ds, isDigit d

theorem isDigit_iff {c : Char} : isDigit c ↔ 0x30 ≤ c.toNat ∧ c.toNat ≤ 0x39 := by simp [isDigit]

theorem IsDigits.append {ds es : List Char} (hd : IsDigits ds) (he : IsDigits es) : IsDigits (ds ++ es) := by
  intro d h
  rcases List.mem_append.1 h with h | h
  · exact hd d h
  · exact he d h

theorem isDigits_replicate (n : ℕ) : IsDigits (List.replicate n '0') := by
  intro d h
  obtain rfl := List.eq_of_mem_replicate h
  decide

theorem isDigits_toDigits (n : ℕ) : IsDigits (Nat.toDigits 10 n) := by
  intro d h
  have hd := Nat.isDigit_of_mem_toDigits (by decide) (by decide) h
  rw [isDigit_iff]
  simp only [Char.isDigit, Bool.and_eq_true, decide_eq_true_eq, ge_iff_le, UInt32.le_iff_toNat_le] at hd
  exact hd

/-! ### The value of digits -/

theorem natOfDigits_nil : natOfDigits [] = 0 := rfl

theorem natOfDigits_toDigits (n : ℕ) : natOfDigits (Nat.toDigits 10 n) = n := Nat.ofDigitChars_ten_toDigits

theorem natOfDigits_append (ds es : List Char) :
    natOfDigits (ds ++ es) = natOfDigits ds * 10 ^ es.length + natOfDigits es := by
  show Nat.ofDigitChars 10 (ds ++ es) 0 = Nat.ofDigitChars 10 ds 0 * 10 ^ es.length + Nat.ofDigitChars 10 es 0
  rw [Nat.ofDigitChars_append, Nat.ofDigitChars_eq_ofDigitChars_zero, Nat.mul_comm]

theorem natOfDigits_replicate (n : ℕ) : natOfDigits (List.replicate n '0') = 0 := by
  show Nat.ofDigitChars 10 (List.replicate n '0') 0 = 0
  simp

private theorem natOfDigits_cons (d : Char) (ds : List Char) :
    natOfDigits (d :: ds) = (d.toNat - 0x30) * 10 ^ ds.length + natOfDigits ds := by
  have h := natOfDigits_append [d] ds
  have hd : natOfDigits [d] = d.toNat - 0x30 := by simp [natOfDigits]
  rwa [hd] at h

private theorem natOfDigits_lt {ds : List Char} (h : IsDigits ds) : natOfDigits ds < 10 ^ ds.length := by
  induction ds with
  | nil => simp [natOfDigits_nil]
  | cons d ds ih =>
    have hd := isDigit_iff.1 (h d (by simp))
    have ih := ih fun e he => h e (by simp [he])
    have hmul : (d.toNat - 0x30) * 10 ^ ds.length ≤ 9 * 10 ^ ds.length := Nat.mul_le_mul_right _ (by omega)
    rw [natOfDigits_cons, List.length_cons, Nat.pow_succ]
    omega

/-- A number with a leading digit other than zero has as many digits as it takes. -/
private theorem le_natOfDigits_cons {d : Char} (hd : isDigit d) (h0 : d ≠ '0') (ds : List Char) :
    10 ^ ds.length ≤ natOfDigits (d :: ds) := by
  have hne : d.toNat ≠ 0x30 := fun h => h0 (Char.toNat_inj.1 h)
  have hd := isDigit_iff.1 hd
  have hmul : 1 * 10 ^ ds.length ≤ (d.toNat - 0x30) * 10 ^ ds.length := Nat.mul_le_mul_right _ (by omega)
  rw [natOfDigits_cons]
  omega

/-- Zeros at the front count for nothing. -/
private theorem natOfDigits_dropWhile (ds : List Char) : natOfDigits (ds.dropWhile (· = '0')) = natOfDigits ds := by
  induction ds with
  | nil => rfl
  | cons d ds ih =>
    rw [List.dropWhile_cons]
    split
    · rename_i h
      obtain rfl : d = '0' := by simpa using h
      rw [ih, natOfDigits_cons]
      simp
    · rfl

/-! ### Patterns from digits -/

/-- The pattern that digits are read as is that of the decimal they write. -/
theorem patternOfDigits_eq {ds : List Char} (hds : IsDigits ds) (e : ℤ) :
    patternOfDigits ds e = Decimal.toPattern ⟨natOfDigits ds, e⟩ := by
  unfold patternOfDigits
  dsimp only
  have hhead : ∀ d, (ds.dropWhile (· = '0')).head? = some d → d ≠ '0' := by
    intro d hd
    have h := List.head?_dropWhile_not (fun c => decide (c = '0')) ds
    rw [hd] at h
    simpa using h
  have hdigits : IsDigits (ds.dropWhile (· = '0')) := fun d hd => hds d (List.dropWhile_subset _ hd)
  rw [← natOfDigits_dropWhile ds]
  generalize ds.dropWhile (· = '0') = es at hhead hdigits ⊢
  cases es with
  | nil => simp [natOfDigits_nil, Decimal.toPattern_zero]
  | cons d es =>
    have hten : (10 : ℚ) ≠ 0 := by norm_num
    have hpow : (0 : ℚ) < 10 ^ e := by positivity
    simp only [List.isEmpty_cons, Bool.false_eq_true, ↓reduceIte, List.length_cons]
    -- the first digit is no zero, so that the number of digits tells the magnitude
    split
    · rename_i h
      refine (Decimal.toPattern_eq_infinitePattern ?_).symm
      have hle : ((10 : ℚ) ^ es.length) ≤ natOfDigits (d :: es) := by
        exact_mod_cast le_natOfDigits_cons (hdigits d (by simp)) (hhead d rfl) es
      calc (10 : ℚ) ^ (309 : ℤ) ≤ 10 ^ ((es.length : ℤ) + e) := zpow_le_zpow_right₀ (by norm_num) (by omega)
        _ = 10 ^ es.length * 10 ^ e := by rw [zpow_add₀ hten, zpow_natCast]
        _ ≤ natOfDigits (d :: es) * 10 ^ e := by gcongr
    · split
      · rename_i h
        refine (Decimal.toPattern_eq_zero ?_).symm
        have hlt : (natOfDigits (d :: es) : ℚ) < 10 ^ (es.length + 1) := by exact_mod_cast natOfDigits_lt hdigits
        calc (natOfDigits (d :: es) : ℚ) * 10 ^ e < 10 ^ (es.length + 1) * 10 ^ e := by gcongr
          _ = 10 ^ (((es.length + 1 : ℕ) : ℤ) + e) := by rw [zpow_add₀ hten, zpow_natCast]
          _ ≤ 10 ^ (-324 : ℤ) := zpow_le_zpow_right₀ (by norm_num) (by omega)
      · rfl

end Catena.Number
