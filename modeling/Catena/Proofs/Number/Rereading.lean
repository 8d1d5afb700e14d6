import Catena.Proofs.Blanks
import Catena.Proofs.Number.Bits
import Catena.Proofs.Number.Notation

/-!
# Numbers read back

The text of a number is read as the number, but for the sign of zero (`ofText?_render`).  It starts with a digit if
the number is finite and has no sign (`render_of_isFinite`), and otherwise with a letter or a sign.
-/

namespace Catena.Number

open Catena.Text

/-! ### Reading letters of numbers -/

theorem isBlank_of_mem_letters : ∀ c ∈ letters, isBlank c = false :=
  List.forall_iff_forall_mem.1 (by decide)

private theorem ascii_of_mem_letters : ∀ c ∈ letters,
    (match digitValue? c with | some d => Char.ofNat (0x30 + d) | none => c) = c :=
  List.forall_iff_forall_mem.1 (by decide)

private theorem asciiDigits_eq_self {cs : List Char} (h : ∀ c ∈ cs, c ∈ letters) : asciiDigits cs = cs := by
  unfold asciiDigits
  exact (List.map_congr_left fun c hc => ascii_of_mem_letters c (h c hc)).trans (List.map_id' cs)

private theorem joinDigits?_eq_some {cs : List Char} (h : '_' ∉ cs) (before : Char) :
    joinDigits? before cs = some cs := by
  fun_induction joinDigits? before cs with
  | case1 => rfl
  | case2 => simp at h
  | case3 => simp at h
  | case4 => simp at h
  | case5 before c r _ hc ih =>
    rw [ih fun hr => h (List.mem_cons_of_mem c hr)]
    rfl

/-- No blanks, digits of other scripts or underscores get in the way. -/
private theorem ofText?_eq_ofTrimmed? {cs : List Char} (h : ∀ c ∈ cs, c ∈ letters) : ofText? cs = ofTrimmed? cs := by
  have hmargin : ∀ c ∈ cs, isMargin c = false := by
    intro c hc
    simp [isMargin, isBlank_of_mem_letters c (h c hc)]
  have htrim : trimBoth isMargin cs = cs :=
    trimBoth_eq_self (fun c hc => hmargin c (List.mem_of_mem_head? hc))
      (fun c hc => hmargin c (List.mem_of_getLast? hc))
  have hunder : '_' ∉ cs := fun hc => absurd (h '_' hc) (by decide)
  unfold ofText?
  rw [htrim, asciiDigits_eq_self h, joinDigits?_eq_some hunder]
  rfl

private theorem splitSign_of_isDigit {c : Char} (hc : isDigit c) (r : List Char) :
    splitSign (c :: r) = (false, c :: r) := by
  unfold splitSign
  split
  · rename_i h
    cases h
    exact absurd hc (by decide)
  · rename_i h
    cases h
    exact absurd hc (by decide)
  · rfl

/-- An unsigned text with the value of a decimal is read as the decimal, with either sign. -/
private theorem ofTrimmed?_of_writes {cs : List Char} (hcs : IsUnsigned cs) {d : Decimal} (h : Writes cs d.value) :
    ofTrimmed? cs = some (ofPattern false d.toPattern) ∧
    ofTrimmed? ('-' :: cs) = some (ofPattern true d.toPattern) := by
  obtain ⟨ds, e, hdec, hds, hvalue⟩ := h
  obtain ⟨c, r, rfl, hc⟩ := hcs.head
  have hpattern : patternOfDigits ds e = d.toPattern := by
    rw [patternOfDigits_eq hds, Decimal.toPattern_congr hvalue]
  have hlower : c.toLower ≠ 'i' ∧ c.toLower ≠ 'n' :=
    forall_isDigit (P := fun c => c.toLower ≠ 'i' ∧ c.toLower ≠ 'n') (by decide) hc
  have hsign := splitSign_of_isDigit hc r
  have hneg : splitSign ('-' :: c :: r) = (true, c :: r) := rfl
  constructor
  · simp [ofTrimmed?, hsign, hlower, hdec, hpattern]
  · simp [ofTrimmed?, hneg, hlower, hdec, hpattern]

/-! ### What is written for a finite number -/

/-- A whole number is the decimal of its whole part. -/
private theorem toPattern_wholePart {x : Float} (hlt : patternOf x < infinitePattern) (hw : isWhole x) :
    (⟨wholePart x, 0⟩ : Decimal).toPattern = patternOf x := by
  have hden := (Binary.ofPattern (patternOf x)).denominator_pos
  have hvalue := (Binary.ofPattern (patternOf x)).numerator_div_denominator
  unfold isWhole at hw
  unfold wholePart
  dsimp only at hw ⊢
  refine Decimal.toPattern_of_value hlt ?_
  generalize Binary.ofPattern (patternOf x) = b at hden hvalue hw ⊢
  have hmul : b.numerator / b.denominator * b.denominator = b.numerator :=
    Nat.div_mul_cancel (Nat.dvd_of_mod_eq_zero (by simpa using hw))
  have hden' : (b.denominator : ℚ) ≠ 0 := by exact_mod_cast hden.ne'
  have hquot : ((b.numerator / b.denominator : ℕ) : ℚ) = b.numerator / b.denominator := by
    rw [eq_div_iff hden']
    exact_mod_cast hmul
  rw [← hvalue, ← hquot]
  simp [Decimal.value]

private theorem numerator_ofPattern_zero : (Binary.ofPattern 0).numerator = 0 := rfl

private theorem wholePart_eq_zero_iff {x : Float} (hlt : patternOf x < infinitePattern) (hw : isWhole x) :
    wholePart x = 0 ↔ patternOf x = 0 := by
  constructor
  · intro h
    have hpattern := toPattern_wholePart hlt hw
    rw [h, Decimal.toPattern_zero] at hpattern
    exact hpattern.symm
  · intro h
    simp [wholePart, h, numerator_ofPattern_zero]

/-- A finite number is written without its sign if it is a zero, and else with the sign, if it has one, before an
unsigned text that writes its magnitude. -/
theorem render_of_isFinite {x : Float} (hx : isFinite x) :
    ∃ (cs : List Char) (d : Decimal), IsUnsigned cs ∧ Writes cs d.value ∧ d.toPattern = patternOf x ∧
      render x = if isNegative x && decide (patternOf x ≠ 0) then '-' :: cs else cs := by
  have hlt : patternOf x < infinitePattern := by simpa [isFinite] using hx
  unfold render
  by_cases hw : isFinite x && isWhole x && wholePart x < pow10 16
  · rw [if_pos hw]
    obtain ⟨⟨-, hw⟩, -⟩ : (isFinite x = true ∧ isWhole x = true) ∧ _ := by simpa using hw
    have hzero := wholePart_eq_zero_iff hlt hw
    refine ⟨Nat.toDigits 10 (wholePart x), ⟨wholePart x, 0⟩,
      (isDigits_toDigits _).isUnsigned Nat.toDigits_ne_nil, ?_, toPattern_wholePart hlt hw, ?_⟩
    · have h := writes_toDigits (wholePart x)
      simpa [Decimal.value] using h
    · unfold truncate intText
      rw [if_pos hx]
      cases hneg : isNegative x with
      | false => simp
      | true =>
        by_cases h0 : patternOf x = 0
        · simp [h0, hzero.2 h0]
        · have hpos : 0 < wholePart x := Nat.pos_of_ne_zero fun h => h0 (hzero.1 h)
          simp [h0, hpos]
  · -- a zero is whole and small, and would have been written above
    have h0 : patternOf x ≠ 0 := by
      intro h0
      have hwhole : isWhole x = true := by simp [isWhole, h0, numerator_ofPattern_zero]
      have hpart : wholePart x = 0 := (wholePart_eq_zero_iff hlt hwhole).2 h0
      refine hw ?_
      rw [hx, hwhole, hpart]
      rfl
    obtain ⟨hcs, hwrites⟩ := magnitudeText_spec h0 hlt
    refine ⟨magnitudeText (patternOf x), shortest (patternOf x), hcs, hwrites, toPattern_shortest hlt, ?_⟩
    rw [if_neg hw]
    unfold exactText
    have h1 : ¬ infinitePattern < patternOf x := by omega
    have h2 : ¬ patternOf x = infinitePattern := by omega
    simp only [h0, h1, h2, ↓reduceIte, ne_eq, not_false_eq_true, decide_true, Bool.and_true]

/-- What is written for a number that is not finite. -/
theorem render_of_not_isFinite {x : Float} (hx : isFinite x = false) :
    (x = ofPattern false undefinedPattern ∧ render x = "nan".toList) ∨
    (patternOf x = infinitePattern ∧ render x = if isNegative x then "-inf".toList else "inf".toList) := by
  have hle : infinitePattern ≤ patternOf x := by simpa [isFinite] using hx
  unfold render exactText
  rw [hx]
  by_cases h : infinitePattern < patternOf x
  · exact .inl ⟨eq_undefined h, by simp [h]⟩
  · have heq : patternOf x = infinitePattern := by omega
    exact .inr ⟨heq, by simp [heq]⟩

/-! ### Reading it back -/

/-- The number without a sign on zero. -/
def unsignZero (x : Float) : Float := if patternOf x = 0 then ofPattern false 0 else x

theorem mem_letters_of_mem_render {x : Float} {c : Char} (hc : c ∈ render x) : c ∈ letters := by
  cases hx : isFinite x with
  | true =>
    obtain ⟨cs, d, hcs, -, -, hr⟩ := render_of_isFinite hx
    rw [hr] at hc
    split at hc
    · rcases List.mem_cons.1 hc with rfl | hc
      · decide
      · exact hcs.subset c hc
    · exact hcs.subset c hc
  | false =>
    have hnan : "nan".toList ⊆ letters := by decide
    have hinf : "inf".toList ⊆ letters := by decide
    have hneg : "-inf".toList ⊆ letters := by decide
    rcases render_of_not_isFinite hx with ⟨-, hr⟩ | ⟨-, hr⟩
    · rw [hr] at hc
      exact hnan hc
    · rw [hr] at hc
      split at hc
      · exact hneg hc
      · exact hinf hc

/-- The text of a number is read as the number, without a sign on zero. -/
theorem ofText?_render (x : Float) : ofText? (render x) = some (unsignZero x) := by
  have hself := ofPattern_patternOf x
  rw [ofText?_eq_ofTrimmed? fun c hc => mem_letters_of_mem_render hc]
  cases hx : isFinite x with
  | true =>
    obtain ⟨cs, d, hcs, hwrites, hpattern, hr⟩ := render_of_isFinite hx
    obtain ⟨hpos, hneg⟩ := ofTrimmed?_of_writes hcs hwrites
    rw [hpattern] at hpos hneg
    rw [hr]
    unfold unsignZero
    by_cases h0 : patternOf x = 0
    · simp [h0] at hpos ⊢
      exact hpos
    · cases hn : isNegative x with
      | true =>
        rw [hn] at hself
        simp [h0, hneg, hself]
      | false =>
        rw [hn] at hself
        simp [h0, hpos, hself]
  | false =>
    rcases render_of_not_isFinite hx with ⟨hnan, hr⟩ | ⟨hinf, hr⟩
    · rw [hr, hnan]
      decide +kernel
    · have hne : patternOf x ≠ 0 := by
        rw [hinf]
        decide
      unfold unsignZero
      rw [hr, if_neg hne, ← hself, hinf]
      cases isNegative x
      · rfl
      · rfl

theorem render_unsignZero (x : Float) : render (unsignZero x) = render x := by
  unfold unsignZero
  split
  · rename_i h
    have hx := ofPattern_patternOf x
    rw [h] at hx
    rw [← hx]
    cases isNegative x <;> decide +kernel
  · rfl

/-- The sign of zero is all that is lost. -/
theorem unsignZero_eq_self_iff (x : Float) : unsignZero x = x ↔ x ≠ -0.0 := by
  have hx := ofPattern_patternOf x
  rw [ne_eq, eq_negZero_iff]
  unfold unsignZero
  by_cases h : patternOf x = 0
  · rw [if_pos h]
    rw [h] at hx
    cases hneg : isNegative x with
    | true =>
      rw [hneg] at hx
      rw [← hx]
      decide +kernel
    | false =>
      rw [hneg] at hx
      simp [hx]
  · simp [h]

/-! ### How the text starts -/

theorem isSolid_render (x : Float) : IsSolid (render x) := by
  refine ⟨?_, fun c hc => isBlank_of_mem_letters c (mem_letters_of_mem_render hc)⟩
  intro h
  have hread := ofText?_render x
  rw [h] at hread
  cases hread

/-- A finite number that is not below zero starts with a digit. -/
theorem render_eq_cons_digit {x : Float} (hx : x.isFinite) (hneg : ¬ x < 0) :
    ∃ c r, render x = c :: r ∧ isDigit c := by
  obtain ⟨cs, d, hcs, -, -, hr⟩ := render_of_isFinite ((isFinite_eq x).trans hx)
  rw [lt_zero_iff] at hneg
  have hsign : (isNegative x && decide (patternOf x ≠ 0)) = false := by simpa using hneg
  rw [hsign] at hr
  obtain ⟨c, r, rfl, hc⟩ := hcs.head
  exact ⟨c, r, hr, hc⟩

/-- Any other number is written as a name, with or without a sign, or as a sign and a digit. -/
theorem render_eq_cons_sign {x : Float} (hx : x < 0 ∨ x.isFinite = false) :
    render x ∈ ["nan".toList, "inf".toList, "-inf".toList] ∨ ∃ c r, render x = '-' :: c :: r ∧ isDigit c := by
  rw [lt_zero_iff, ← isFinite_eq] at hx
  cases hfin : isFinite x with
  | true =>
    rw [hfin] at hx
    obtain ⟨hneg, h0⟩ : isNegative x = true ∧ patternOf x ≠ 0 := by simpa using hx
    obtain ⟨cs, d, hcs, -, -, hr⟩ := render_of_isFinite hfin
    obtain ⟨c, r, rfl, hc⟩ := hcs.head
    exact .inr ⟨c, r, by simpa [hneg, h0] using hr, hc⟩
  | false =>
    left
    rcases render_of_not_isFinite hfin with ⟨-, hr⟩ | ⟨-, hr⟩
    · rw [hr]
      simp
    · rw [hr]
      split <;> simp

end Catena.Number
