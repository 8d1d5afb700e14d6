import Catena.Number.Binary
import Mathlib

/-!
# Numbers and their bit patterns

A number is determined by its sign and its pattern (`ofPattern_patternOf`), and there is only one number that is
undefined (`eq_undefined`).  Both rest on the way in which a number is packed from a sign, an exponent and a mantissa.
Sign and pattern also tell whether a number is finite (`isFinite_eq`) or below zero (`lt_zero_iff`).
-/

namespace Catena.Number

open Float.Model Float.Model.UnpackedFloat

/-! ### Packing -/

private abbrev exponentBits (b : BitVec 64) : BitVec 11 := @unpackExponent Format.binary64 b
private abbrev mantissaBits (b : BitVec 64) : BitVec 52 := @unpackMantissa Format.binary64 b
private abbrev signBit (b : BitVec 64) : BitVec 1 := @unpackSign Format.binary64 b

private theorem toNat_exponentBits (b : BitVec 64) : (exponentBits b).toNat = b.toNat / 2 ^ 52 % 2 ^ 11 := by
  simp [unpackExponent, Nat.shiftRight_eq_div_pow]

private theorem toNat_mantissaBits (b : BitVec 64) : (mantissaBits b).toNat = b.toNat % 2 ^ 52 := by
  simp [unpackMantissa]

private theorem toNat_signBit (b : BitVec 64) : (signBit b).toNat = b.toNat / 2 ^ 63 := by
  have := b.isLt
  simp [unpackSign, Nat.shiftRight_eq_div_pow]
  omega

private theorem toBitVec_ofBitVec (b : BitVec 1) : (Sign.ofBitVec b).toBitVec = b := by
  revert b
  decide

private theorem toNat_packComponents (s : Sign) (e : BitVec 11) (m : BitVec 52) :
    (packComponents Format.binary64 s e m).toNat = s.toBitVec.toNat * 2 ^ 63 + e.toNat * 2 ^ 52 + m.toNat := by
  show (s.toBitVec ++ e ++ m).toNat = _
  rw [BitVec.toNat_append, ← Nat.shiftLeft_add_eq_or_of_lt m.isLt, BitVec.toNat_append,
    ← Nat.shiftLeft_add_eq_or_of_lt e.isLt, Nat.shiftLeft_eq, Nat.shiftLeft_eq]
  omega

private theorem packComponents_unpack (b : BitVec 64) :
    packComponents Format.binary64 (Sign.ofBitVec (signBit b)) (exponentBits b) (mantissaBits b) = b := by
  apply BitVec.eq_of_toNat_eq
  have := b.isLt
  rw [toNat_packComponents, toBitVec_ofBitVec, toNat_signBit, toNat_exponentBits, toNat_mantissaBits]
  omega

private theorem toNat_one_append (m : BitVec 52) : (1#1 ++ m).toNat = 2 ^ 52 + m.toNat := by
  rw [BitVec.toNat_append, ← Nat.shiftLeft_add_eq_or_of_lt m.isLt]
  rfl

private theorem pack_subnormal (s : Sign) (m : BitVec 52) (hm : 0 < m.toNat) :
    UnpackedFloat.pack Format.binary64 (.finite s m.toNat (-1074) hm) = packComponents Format.binary64 s 0#11 m := by
  have hlt : m.toNat < 2 ^ 52 := m.isLt
  have hlog : m.toNat.log2 < 52 := (Nat.log2_lt (by omega)).2 hlt
  have hne : ¬ m.toNat.log2 + 1 = Format.binary64.mantissaBits := by
    show ¬ m.toNat.log2 + 1 = 53
    omega
  have hbiased : ¬ 2 ^ 11 ≤ (-1074 + (Format.binary64.exponentBias : Int) + (52 : Nat)).toNat + 1 := by decide
  simp only [UnpackedFloat.pack, hne, hbiased, ↓reduceIte, BitVec.ofNat_toNat, BitVec.setWidth_eq]

private theorem pack_normal (s : Sign) (e : BitVec 11) (m : BitVec 52) (he : e.toNat ≠ 2047)
    (hm : 0 < 2 ^ 52 + m.toNat) :
    UnpackedFloat.pack Format.binary64 (.finite s (2 ^ 52 + m.toNat) (e.toNat - 1075) hm) =
      packComponents Format.binary64 s e m := by
  have hlt : m.toNat < 2 ^ 52 := m.isLt
  have he' : e.toNat < 2 ^ 11 := e.isLt
  have hlog : (2 ^ 52 + m.toNat).log2 = 52 := (Nat.log2_eq_iff (by omega)).2 ⟨by omega, by omega⟩
  have hbits : (2 ^ 52 + m.toNat).log2 + 1 = Format.binary64.mantissaBits := by
    rw [hlog]
    rfl
  have hbiased : ((e.toNat : Int) - 1075 + (Format.binary64.exponentBias : Int) + (52 : Nat)).toNat = e.toNat := by
    show ((e.toNat : Int) - 1075 + (1023 : Nat) + (52 : Nat)).toNat = e.toNat
    omega
  have hsmall : ¬ 2 ^ 11 ≤ e.toNat + 1 := by omega
  have hclear : BitVec.ofNat 52 (2 ^ 52 + m.toNat) = m := by
    apply BitVec.eq_of_toNat_eq
    rw [BitVec.toNat_ofNat]
    omega
  simp only [UnpackedFloat.pack, hbits, hbiased, hsmall, hclear, ↓reduceIte, BitVec.ofNat_toNat, BitVec.setWidth_eq]

/-- Packing what bits stand for gives the bits again, there being one pattern for what is no number. -/
private theorem pack_unpack {b : BitVec 64} (hb : Format.binary64.Valid b) :
    UnpackedFloat.pack Format.binary64 (UnpackedFloat.unpack Format.binary64 b) = b := by
  have key := packComponents_unpack b
  unfold UnpackedFloat.unpack
  dsimp only
  split
  · rename_i hexp
    replace hexp : exponentBits b = -1#11 := hexp
    split
    · rename_i hman
      replace hman : mantissaBits b = 0#52 := hman
      rw [hexp, hman] at key
      exact key
    · -- here alone several bit vectors stand for the same, of which one is valid
      rename_i hman
      exact (hb.eq_packedNaN hexp hman).symm
  · rename_i hinf
    split
    · rename_i hexp
      replace hexp : exponentBits b = 0#11 := hexp
      rw [hexp] at key
      split
      · rename_i hman
        replace hman : mantissaBits b = 0#52 := hman
        rw [hman] at key
        exact key
      · rename_i hman
        have hpos : 0 < (mantissaBits b).toNat := Nat.pos_of_ne_zero fun h => hman (BitVec.eq_of_toNat_eq h)
        have hexp' : ((exponentBits b).toNat : Int) - ((1023 : Nat) + (52 : Nat)) + 1 = -1074 := by rw [hexp]; rfl
        show UnpackedFloat.pack Format.binary64
          (.finite _ _ (((exponentBits b).toNat : Int) - ((1023 : Nat) + (52 : Nat)) + 1) hpos) = b
        simp only [hexp']
        rw [pack_subnormal]
        exact key
    · have hne : (exponentBits b).toNat ≠ 2047 := fun h => hinf (BitVec.eq_of_toNat_eq h)
      show UnpackedFloat.pack Format.binary64
        (.finite _ (1#1 ++ mantissaBits b).toNat (((exponentBits b).toNat : Int) - 1075) _) = b
      simp only [toNat_one_append]
      rw [pack_normal _ _ _ hne]
      exact key

/-! ### Signs and patterns -/

theorem ofBits_toBits (x : Float) : Float.ofBits x.toBits = x := by
  obtain ⟨⟨bits, hvalid⟩⟩ := x
  show Float.ofModel ⟨UInt64.ofBitVec
    (UnpackedFloat.pack Format.binary64 (UnpackedFloat.unpack Format.binary64 bits.toBitVec)), _⟩ = _
  simp only [pack_unpack hvalid]

/-- A number is its sign and its pattern. -/
theorem ofPattern_patternOf (x : Float) : ofPattern (isNegative x) (patternOf x) = x := by
  have hlt : x.toBits.toNat < 2 ^ 64 := x.toBits.toNat_lt
  have hbits : (if isNegative x then pow2 63 + patternOf x else patternOf x) = x.toBits.toNat := by
    unfold isNegative patternOf
    have h63 : pow2 63 = 2 ^ 63 := rfl
    rw [h63]
    simp only [decide_eq_true_eq]
    split <;> omega
  unfold ofPattern
  rw [hbits, UInt64.ofNat_toNat, ofBits_toBits]

/-- Only one number has a pattern above that of infinity. -/
theorem eq_undefined {x : Float} (h : infinitePattern < patternOf x) : x = ofPattern false undefinedPattern := by
  have hinf : infinitePattern = 2047 * 2 ^ 52 := rfl
  have h63 : pow2 63 = 2 ^ 63 := rfl
  unfold patternOf at h
  rw [hinf, h63] at h
  have hlt : x.toBits.toNat < 2 ^ 64 := x.toBits.toNat_lt
  have htoNat : x.toBits.toBitVec.toNat = x.toBits.toNat := rfl
  have hexp : exponentBits x.toBits.toBitVec = -1#11 := by
    apply BitVec.eq_of_toNat_eq
    rw [toNat_exponentBits, htoNat]
    show _ = 2047
    omega
  have hman : mantissaBits x.toBits.toBitVec ≠ 0#52 := by
    intro h0
    have h1 := congrArg BitVec.toNat h0
    rw [toNat_mantissaBits, htoNat] at h1
    replace h1 : x.toBits.toNat % 2 ^ 52 = 0 := h1
    omega
  have hbits : x.toBits = UInt64.ofBitVec (packedNaN Format.binary64) :=
    congrArg UInt64.ofBitVec (x.toModel.valid.eq_packedNaN hexp hman)
  rw [← ofBits_toBits x, hbits]
  rfl

/-! ### Comparison with zero -/

private theorem unpack_eq (x : Float) :
    x.toModel.unpack = UnpackedFloat.unpack Format.binary64 x.toBits.toBitVec := rfl

private theorem ofBitVec_signBit (x : Float) :
    Sign.ofBitVec (signBit x.toBits.toBitVec) = if isNegative x then .negative else .positive := by
  have hsign := toNat_signBit x.toBits.toBitVec
  have hlt : x.toBits.toNat < 2 ^ 64 := x.toBits.toNat_lt
  have h63 : pow2 63 = 2 ^ 63 := rfl
  have htoNat : x.toBits.toBitVec.toNat = x.toBits.toNat := rfl
  have hzero : signBit x.toBits.toBitVec = 0#1 ↔ ¬ isNegative x := by
    rw [← BitVec.toNat_inj, hsign, htoNat]
    simp only [isNegative, h63, decide_eq_true_eq]
    show x.toBits.toNat / 2 ^ 63 = 0 ↔ _
    omega
  unfold Sign.ofBitVec
  by_cases h : isNegative x <;> simp [hzero, h]

/-- What a number stands for, by its sign and its pattern. -/
private theorem unpack_cases (x : Float) :
    (infinitePattern < patternOf x ∧ x.toModel.unpack = .notANumber) ∨
    (patternOf x = infinitePattern ∧
      x.toModel.unpack = .infinity (if isNegative x then .negative else .positive)) ∨
    (patternOf x = 0 ∧ x.toModel.unpack = .zero (if isNegative x then .negative else .positive)) ∨
    (patternOf x ≠ 0 ∧ patternOf x < infinitePattern ∧
      ∃ m e hm, x.toModel.unpack = .finite (if isNegative x then .negative else .positive) m e hm) := by
  have hexp := toNat_exponentBits x.toBits.toBitVec
  have hman := toNat_mantissaBits x.toBits.toBitVec
  have hlt : x.toBits.toNat < 2 ^ 64 := x.toBits.toNat_lt
  have htoNat : x.toBits.toBitVec.toNat = x.toBits.toNat := rfl
  have hinf : infinitePattern = 2047 * 2 ^ 52 := rfl
  have hpattern : patternOf x = x.toBits.toNat % 2 ^ 63 := rfl
  rw [htoNat] at hexp hman
  rw [unpack_eq, ← ofBitVec_signBit, hinf, hpattern]
  unfold UnpackedFloat.unpack
  dsimp only
  -- the splits follow `unpack`: all bits of the exponent are set, none is, or some are
  split
  · rename_i he
    have he' : (exponentBits x.toBits.toBitVec).toNat = 2047 := congrArg BitVec.toNat he
    split
    · rename_i hm
      have hm' : (mantissaBits x.toBits.toBitVec).toNat = 0 := congrArg BitVec.toNat hm
      exact .inr (.inl ⟨by omega, rfl⟩)
    · rename_i hm
      have hm' : (mantissaBits x.toBits.toBitVec).toNat ≠ 0 := fun h => hm (BitVec.eq_of_toNat_eq h)
      exact .inl ⟨by omega, rfl⟩
  · rename_i he
    have he' : (exponentBits x.toBits.toBitVec).toNat ≠ 2047 := fun h => he (BitVec.eq_of_toNat_eq h)
    split
    · rename_i h0
      have h0' : (exponentBits x.toBits.toBitVec).toNat = 0 := congrArg BitVec.toNat h0
      split
      · rename_i hm
        have hm' : (mantissaBits x.toBits.toBitVec).toNat = 0 := congrArg BitVec.toNat hm
        exact .inr (.inr (.inl ⟨by omega, rfl⟩))
      · rename_i hm
        have hm' : (mantissaBits x.toBits.toBitVec).toNat ≠ 0 := fun h => hm (BitVec.eq_of_toNat_eq h)
        exact .inr (.inr (.inr ⟨by omega, by omega, _, _, Nat.pos_of_ne_zero hm', rfl⟩))
    · rename_i h0
      have h0' : (exponentBits x.toBits.toBitVec).toNat ≠ 0 := fun h => h0 (BitVec.eq_of_toNat_eq h)
      have hpos : 0 < (1#1 ++ mantissaBits x.toBits.toBitVec).toNat := by
        rw [toNat_one_append]
        omega
      exact .inr (.inr (.inr ⟨by omega, by omega, _, _, hpos, rfl⟩))

/-- The finite numbers are those with a pattern below that of infinity. -/
theorem isFinite_eq (x : Float) : isFinite x = x.isFinite := by
  show decide (patternOf x < infinitePattern) = x.toModel.unpack.isFinite
  rcases unpack_cases x with ⟨h, hu⟩ | ⟨h, hu⟩ | ⟨h, hu⟩ | ⟨-, h, m, e, hm, hu⟩
  · rw [hu, decide_eq_false (by omega)]
    rfl
  · rw [hu, decide_eq_false (by omega)]
    rfl
  · rw [hu, h]
    rfl
  · rw [hu, decide_eq_true h]
    rfl

/-- The numbers below zero are those with a sign, but for zero. -/
theorem lt_zero_iff (x : Float) : x < 0 ↔ isNegative x ∧ patternOf x ≠ 0 := by
  have hzero : (0 : Float).toModel.unpack = .zero .positive := rfl
  have hlt : x < 0 ↔ x.toModel.unpack.lt (0 : Float).toModel.unpack = true := decide_eq_true_iff
  rw [hlt, hzero]
  rcases unpack_cases x with ⟨h, hu⟩ | ⟨h, hu⟩ | ⟨h, hu⟩ | ⟨h, -, m, e, hm, hu⟩
  · have hneg : isNegative x = false := by
      rw [eq_undefined h]
      decide +kernel
    rw [hu, hneg]
    simp [UnpackedFloat.lt, UnpackedFloat.compare]
  · have hne : patternOf x ≠ 0 := by
      rw [h]
      decide
    rw [hu]
    cases isNegative x <;> simp [UnpackedFloat.lt, UnpackedFloat.compare, hne]
  · rw [hu, h]
    simp [UnpackedFloat.lt, UnpackedFloat.compare]
  · rw [hu]
    cases isNegative x <;> simp [UnpackedFloat.lt, UnpackedFloat.compare, h]

theorem eq_negZero_iff (x : Float) : x = -0.0 ↔ isNegative x ∧ patternOf x = 0 := by
  have hzero : (-0.0 : Float) = ofPattern true 0 := rfl
  rw [hzero]
  constructor
  · rintro rfl
    decide +kernel
  · rintro ⟨hneg, hp⟩
    rw [← ofPattern_patternOf x, hneg, hp]

end Catena.Number
