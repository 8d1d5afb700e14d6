import Catena.Number.Notation
import Catena.Proofs.Number.Digits
import Mathlib.Tactic.IntervalCases

/-!
# What is written for a number

The digits that are written for a number and those that are read from the text differ in where the point stands and in
zeros at the ends.  `Writes` compares the two by value: a text in either notation writes the value of its digits
(`writes_positional`, `writes_scientific`), and so the text of a magnitude writes its shortest decimal.
-/

namespace Catena.Number

open Catena.Text

/-! ### Reading decimals -/

private theorem splitDigits_append {ds r : List Char} (hds : IsDigits ds)
    (hr : ∀ c, r.head? = some c → isDigit c = false) : splitDigits (ds ++ r) = (ds, r) := by
  have htake : r.takeWhile isDigit = [] := by
    cases r with
    | nil => rfl
    | cons c r => simp [hr c rfl]
  have hdrop : r.dropWhile isDigit = r := by
    cases r with
    | nil => rfl
    | cons c r => simp [hr c rfl]
  unfold splitDigits
  rw [List.takeWhile_append_of_pos hds, List.dropWhile_append_of_pos hds, htake, hdrop, List.append_nil]

/-- An exponent, if any, is all that may follow the digits of a number. -/
private def IsTail (r : List Char) : Prop := ∀ c, r.head? = some c → isDigit c = false ∧ c ≠ '.'

private theorem decimal?_whole {ds r : List Char} {e : ℤ} (hds : IsDigits ds) (hne : ds ≠ []) (hr : IsTail r)
    (he : exponent? r = some e) : decimal? (ds ++ r) = some (ds, e) := by
  unfold decimal?
  rw [splitDigits_append hds fun c hc => (hr c hc).1]
  cases r with
  | nil => simpa [hne] using he
  | cons c r =>
    have hc : c ≠ '.' := (hr c rfl).2
    dsimp only
    split
    · rename_i h
      exact absurd (List.cons.inj h).1 hc
    · simp [hne, he]

private theorem decimal?_point {ds fs r : List Char} {e : ℤ} (hds : IsDigits ds) (hfs : IsDigits fs) (hne : ds ≠ [])
    (hr : IsTail r) (he : exponent? r = some e) :
    decimal? (ds ++ '.' :: (fs ++ r)) = some (ds ++ fs, e - fs.length) := by
  unfold decimal?
  rw [splitDigits_append hds fun c hc => by cases hc; decide]
  simp only [splitDigits_append hfs fun c hc => (hr c hc).1]
  simp [hne, he]

private theorem isTail_nil : IsTail [] := by
  intro c hc
  cases hc

private theorem isTail_cons_e (r : List Char) : IsTail ('e' :: r) := by
  intro c hc
  cases hc
  decide

/-! ### Texts by value -/

/-- The text is digits with a point or an exponent, of the given value. -/
def Writes (cs : List Char) (v : ℚ) : Prop :=
  ∃ ds e, decimal? cs = some (ds, e) ∧ IsDigits ds ∧ (⟨natOfDigits ds, e⟩ : Decimal).value = v

theorem writes_toDigits (n : ℕ) : Writes (Nat.toDigits 10 n) n := by
  refine ⟨Nat.toDigits 10 n, 0, ?_, isDigits_toDigits n, ?_⟩
  · have h := decimal?_whole (isDigits_toDigits n) Nat.toDigits_ne_nil isTail_nil (e := 0) rfl
    rwa [List.append_nil] at h
  · simp [Decimal.value, natOfDigits_toDigits]

/-- Digits whose first one has the exponent `lead`, as a number. -/
def leadValue (ds : List Char) (lead : ℤ) : ℚ := natOfDigits ds * 10 ^ (lead + 1 - ds.length)

private theorem writes_point {ds fs : List Char} (hds : IsDigits ds) (hfs : IsDigits fs) (hne : ds ≠ []) :
    Writes (ds ++ '.' :: fs) (natOfDigits (ds ++ fs) * 10 ^ (-(fs.length : ℤ))) := by
  refine ⟨ds ++ fs, -(fs.length : ℤ), ?_, hds.append hfs, rfl⟩
  have h := decimal?_point hds hfs hne isTail_nil (e := 0) rfl
  simpa using h

theorem writes_positional {ds : List Char} (hds : IsDigits ds) (hne : ds ≠ []) (lead : ℤ) :
    Writes (positional ds lead) (leadValue ds lead) := by
  have hz : natOfDigits ['0'] = 0 := rfl
  unfold positional
  split
  · rename_i hlead
    obtain ⟨n, rfl⟩ : ∃ n : ℕ, lead = n := ⟨lead.toNat, by omega⟩
    simp only [Int.toNat_natCast]
    by_cases hlen : ds.length ≤ n + 1
    · -- the point stands behind all digits, and zeros fill up to it
      have hdrop : ds.drop (n + 1) = [] := List.drop_eq_nil_of_le hlen
      have htake : ds.take (n + 1) = ds := List.take_of_length_le hlen
      have hwhole : IsDigits (ds ++ List.replicate (n + 1 - ds.length) '0') := hds.append (isDigits_replicate _)
      have h := writes_point hwhole (isDigits_replicate 1) (by simp [hne])
      have hexp : (n : ℤ) + 1 - ds.length = ((n + 1 - ds.length : ℕ) : ℤ) := by omega
      rw [hdrop, htake]
      unfold leadValue
      rw [hexp, zpow_natCast]
      rw [List.replicate_one, natOfDigits_append, natOfDigits_append, natOfDigits_replicate, hz] at h
      simpa using h
    · -- the point stands between digits
      have hpad : n + 1 - ds.length = 0 := by omega
      have hempty : (ds.drop (n + 1)).isEmpty = false := by simpa using hlen
      have hwhole : IsDigits (ds.take (n + 1)) := fun d hd => hds d (List.mem_of_mem_take hd)
      have hfraction : IsDigits (ds.drop (n + 1)) := fun d hd => hds d (List.mem_of_mem_drop hd)
      have h := writes_point hwhole hfraction (by simp [hne])
      have hexp : (n : ℤ) + 1 - ds.length = -((ds.drop (n + 1)).length : ℤ) := by
        rw [List.length_drop]
        omega
      unfold leadValue
      rw [hexp, hpad, hempty]
      simpa using h
  · -- the point stands before all digits, and zeros fill up from it
    rename_i hlead
    have hfraction : IsDigits (List.replicate ((-lead).toNat - 1) '0' ++ ds) := (isDigits_replicate _).append hds
    have h := writes_point (isDigits_replicate 1) hfraction (by simp)
    have hexp : lead + 1 - ds.length = -((List.replicate ((-lead).toNat - 1) '0' ++ ds).length : ℤ) := by
      rw [List.length_append, List.length_replicate]
      omega
    unfold leadValue
    rw [hexp]
    rw [List.replicate_one, natOfDigits_append, natOfDigits_append, natOfDigits_replicate, hz] at h
    simpa using h

private theorem exponent?_signed {es : List Char} {lead : ℤ} (hes : IsDigits es) (hne : es ≠ [])
    (hvalue : natOfDigits es = lead.natAbs) :
    exponent? ('e' :: (if lead < 0 then '-' else '+') :: es) = some lead := by
  have hall : es.all isDigit = true := by simpa [IsDigits] using hes
  have hempty : es.isEmpty = false := List.isEmpty_eq_false_iff.2 hne
  by_cases h : lead < 0
  · simp only [exponent?, splitSign, h, hempty, hall, hvalue, decide_true, Bool.true_or, ↓reduceIte, Bool.not_true,
      Bool.or_self, Bool.false_eq_true, Option.some.injEq]
    omega
  · simp only [exponent?, splitSign, h, hempty, hall, hvalue, decide_true, Bool.true_or, ↓reduceIte, Bool.not_true,
      Bool.or_self, Bool.false_eq_true, Option.some.injEq]
    omega

theorem writes_scientific {ds : List Char} (hds : IsDigits ds) (hne : ds ≠ []) (lead : ℤ) :
    Writes (scientific ds lead) (leadValue ds lead) := by
  obtain ⟨d, ds, rfl⟩ := List.exists_cons_of_ne_nil hne
  have hd : IsDigits [d] := fun c hc => hds c (by simp [List.mem_singleton.1 hc])
  have hexp : exponent? ('e' :: (if lead < 0 then '-' else '+') ::
      (List.replicate (2 - (Nat.toDigits 10 lead.natAbs).length) '0' ++ Nat.toDigits 10 lead.natAbs)) = some lead := by
    refine exponent?_signed ((isDigits_replicate _).append (isDigits_toDigits _)) (by simp [Nat.toDigits_ne_nil]) ?_
    rw [natOfDigits_append, natOfDigits_replicate, natOfDigits_toDigits, Nat.zero_mul, Nat.zero_add]
  unfold scientific
  cases ds with
  | nil =>
    refine ⟨[d], lead, ?_, hd, ?_⟩
    · have h := decimal?_whole hd (by simp) (isTail_cons_e _) hexp
      simpa using h
    · simp [leadValue, Decimal.value]
  | cons d' ds =>
    have hrest : IsDigits (d' :: ds) := fun c hc => hds c (List.mem_cons_of_mem d hc)
    refine ⟨d :: d' :: ds, lead - (d' :: ds).length, ?_, hds, ?_⟩
    · have h := decimal?_point hd hrest (by simp) (isTail_cons_e _) hexp
      simpa using h
    · unfold leadValue Decimal.value
      congr 2
      simp only [List.length_cons]
      push_cast
      omega

/-! ### Letters of numbers -/

/-- Every character that stands in the text of some number. -/
def letters : List Char := "0123456789+-.einfa".toList

/-- The text of a number without a sign: it starts with a digit. -/
structure IsUnsigned (cs : List Char) : Prop where
  head : ∃ c r, cs = c :: r ∧ isDigit c
  subset : ∀ c ∈ cs, c ∈ letters

-- `List.Forall` and not a bounded quantifier: deciding the latter may run through all characters.
theorem forall_isDigit {P : Char → Prop} (h : "0123456789".toList.Forall P) {c : Char} (hc : isDigit c) : P c := by
  obtain ⟨h1, h2⟩ := isDigit_iff.1 hc
  refine List.forall_iff_forall_mem.1 h c ?_
  rw [← Char.ofNat_toNat c]
  interval_cases c.toNat <;> decide

theorem mem_letters_of_isDigit {c : Char} (h : isDigit c) : c ∈ letters := forall_isDigit (by decide) h

theorem IsDigits.isUnsigned {ds : List Char} (hds : IsDigits ds) (hne : ds ≠ []) : IsUnsigned ds := by
  obtain ⟨d, r, rfl⟩ := List.exists_cons_of_ne_nil hne
  exact ⟨⟨d, r, rfl, hds d (by simp)⟩, fun c hc => mem_letters_of_isDigit (hds c hc)⟩

private theorem IsUnsigned.append {cs ds : List Char} (h : IsUnsigned cs) (hds : ∀ c ∈ ds, c ∈ letters) :
    IsUnsigned (cs ++ ds) := by
  obtain ⟨c, r, rfl, hc⟩ := h.head
  refine ⟨⟨c, r ++ ds, rfl, hc⟩, fun d hd => ?_⟩
  rcases List.mem_append.1 hd with hd | hd
  · exact h.subset d hd
  · exact hds d hd

private theorem isUnsigned_positional {ds : List Char} (hds : IsDigits ds) (hne : ds ≠ []) (lead : ℤ) :
    IsUnsigned (positional ds lead) := by
  unfold positional
  split
  · refine IsUnsigned.append (IsDigits.isUnsigned ?_ (by simp [hne])) ?_
    · exact IsDigits.append (fun d hd => hds d (List.mem_of_mem_take hd)) (isDigits_replicate _)
    · intro c hc
      rcases List.mem_cons.1 hc with rfl | hc
      · decide
      · refine mem_letters_of_isDigit ?_
        split at hc
        · exact isDigits_replicate 1 c hc
        · exact hds c (List.mem_of_mem_drop hc)
  · have hzero : IsUnsigned ['0'] := (isDigits_replicate 1).isUnsigned (by simp)
    refine hzero.append ?_
    intro c hc
    rcases List.mem_cons.1 hc with rfl | hc
    · decide
    · exact mem_letters_of_isDigit ((isDigits_replicate _).append hds c hc)

private theorem isUnsigned_scientific {ds : List Char} (hds : IsDigits ds) (hne : ds ≠ []) (lead : ℤ) :
    IsUnsigned (scientific ds lead) := by
  have hfirst : IsUnsigned (ds.take 1) :=
    IsDigits.isUnsigned (fun d hd => hds d (List.mem_of_mem_take hd)) (by simp [hne])
  unfold scientific
  rw [List.append_assoc, List.append_assoc]
  refine hfirst.append fun c hc => ?_
  rcases List.mem_append.1 hc with hc | hc
  · split at hc
    · cases hc
    · rcases List.mem_cons.1 hc with rfl | hc
      · decide
      · exact mem_letters_of_isDigit (hds c (List.mem_of_mem_drop hc))
  · rw [List.cons_append, List.cons_append] at hc
    rcases List.mem_cons.1 hc with rfl | hc
    · decide
    · rcases List.mem_cons.1 hc with rfl | hc
      · split <;> decide
      · exact mem_letters_of_isDigit ((isDigits_replicate _).append (isDigits_toDigits _) c hc)

/-! ### The text of a magnitude -/

private theorem eq_append_replicate (ds : List Char) :
    ∃ k, ds = (ds.reverse.dropWhile (· = '0')).reverse ++ List.replicate k '0' := by
  refine ⟨(ds.reverse.takeWhile (· = '0')).length, ?_⟩
  have hall : ds.reverse.takeWhile (· = '0') = List.replicate (ds.reverse.takeWhile (· = '0')).length '0' := by
    refine List.eq_replicate_of_mem fun c hc => ?_
    have h := List.all_takeWhile (l := ds.reverse) (p := fun c => decide (c = '0'))
    rw [List.all_eq_true] at h
    simpa using h c hc
  have h := List.takeWhile_append_dropWhile (p := fun c => decide (c = '0')) (l := ds.reverse)
  rw [hall] at h
  have hrev := congrArg List.reverse h
  rw [List.reverse_append, List.reverse_replicate, List.reverse_reverse] at hrev
  exact hrev.symm

/-- The leading digits of a decimal have its value, zeros at the end or not. -/
private theorem leadValue_significant {d : Decimal} (hd : d.digits ≠ 0) :
    IsDigits (significant d).1 ∧ (significant d).1 ≠ [] ∧ leadValue (significant d).1 (significant d).2 = d.value := by
  obtain ⟨k, hk⟩ := eq_append_replicate (Nat.toDigits 10 d.digits)
  have hdigits := isDigits_toDigits d.digits
  have hvalue := natOfDigits_toDigits d.digits
  unfold significant
  dsimp only
  generalize Nat.toDigits 10 d.digits = all at hk hdigits hvalue ⊢
  generalize (all.reverse.dropWhile (· = '0')).reverse = ds at hk ⊢
  subst hk
  rw [natOfDigits_append, natOfDigits_replicate, List.length_replicate, Nat.add_zero] at hvalue
  refine ⟨fun c hc => hdigits c (by simp [hc]), ?_, ?_⟩
  · rintro rfl
    exact hd (by rw [← hvalue, natOfDigits_nil, Nat.zero_mul])
  · have hexp : d.exponent + ((ds ++ List.replicate k '0').length : ℤ) - 1 + 1 - ds.length = k + d.exponent := by
      simp only [List.length_append, List.length_replicate]
      push_cast
      ring
    unfold leadValue Decimal.value
    rw [hexp, zpow_add₀ (by norm_num), zpow_natCast, ← hvalue]
    push_cast
    ring

/-- The text of a magnitude writes a decimal that reads back. -/
theorem magnitudeText_spec {p : ℕ} (h0 : p ≠ 0) (hp : p < infinitePattern) :
    IsUnsigned (magnitudeText p) ∧ Writes (magnitudeText p) (shortest p).value := by
  have hdigits : (shortest p).digits ≠ 0 := by
    intro h
    have hpattern := toPattern_shortest hp
    generalize shortest p = d at h hpattern
    obtain ⟨digits, e⟩ := d
    obtain rfl : digits = 0 := h
    rw [Decimal.toPattern_zero] at hpattern
    exact h0 hpattern.symm
  obtain ⟨hds, hne, hvalue⟩ := leadValue_significant hdigits
  unfold magnitudeText
  rw [if_neg h0]
  dsimp only
  rw [← hvalue]
  split
  · exact ⟨isUnsigned_positional hds hne _, writes_positional hds hne _⟩
  · exact ⟨isUnsigned_scientific hds hne _, writes_scientific hds hne _⟩

end Catena.Number
