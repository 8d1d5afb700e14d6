import Catena.Proofs.Pairing

/-!
# Pairing is bracket matching

Conditionals open and markers close, and what stands between a conditional and its marker is balanced.  `Encloses` says
so without regard to how pairs are found, and `Program.pair` finds exactly these pairs (`partner?_pair_iff`).

* The markers that pairing leaves open behind a balanced program are those of the rest (`Balanced.markers_append`), and
  the first of them comes right after a balanced program (`exists_balanced_of_markers`).
* A conditional in a balanced program has its partner there (`Balanced.exists_partner`), so that pairs nest.
* A marker is left open or some conditional is paired with it (`mem_markers_or_partner`).
-/

namespace Catena

theorem Token.isConditional_withTarget (t : Token) (j : Nat) : (t.withTarget j).isConditional = t.isConditional := by
  cases t <;> simp [withTarget, isConditional_builtin]

namespace Program

/-- Conditionals and markers are balanced like brackets; other tokens do not count. -/
inductive Balanced : Program → Prop where
  | nil : Balanced []
  | skip {t : Token} {ts : Program} (hf : t.isForward = false) (hc : t.isConditional = false) (h : Balanced ts) :
      Balanced (t :: ts)
  | enclose {t u : Token} {inner rest : Program} (ht : t.isConditional) (hi : Balanced inner) (hu : u.isForward)
      (hr : Balanced rest) : Balanced (t :: (inner ++ u :: rest))

/-- A conditional stands at the index `i` and a marker behind it, at `j`, with nothing unbalanced in between. -/
structure Encloses (p : Program) (i j : Nat) : Prop where
  lt : i < j
  conditional : ∃ t, p[i]? = some t ∧ t.isConditional
  marker : ∃ u, p[j]? = some u ∧ u.isForward
  balanced : Balanced ((p.take j).drop (i + 1))

/-- The index of the marker that the conditional at an index is paired with. -/
def partner? (p : Program) (i : Nat) : Option Nat := (p[i]?.filter Token.isConditional).bind Token.target?

end Program

open Program

/-! ### Open markers -/

theorem pairFrom_cons_of_isForward (i : Nat) {u : Token} (hu : u.isForward) (rest : Program) :
    (pairFrom i (u :: rest)).2 = i :: (pairFrom (i + 1) rest).2 := by
  simp [pairFrom, hu]

/-- Pairing goes from the end to the start, so what stands before a token does not matter to it. -/
theorem drop_pairFrom (i k : Nat) (ts : Program) :
    (pairFrom i ts).1.drop k = (pairFrom (i + k) (ts.drop k)).1 := by
  induction k generalizing i ts with
  | zero => rfl
  | succ k ih =>
    cases ts with
    | nil => simp [pairFrom]
    | cons t ts =>
      have htail : (pairFrom i (t :: ts)).1.drop (k + 1) = (pairFrom (i + 1) ts).1.drop k := by
        rcases pairFrom_cons_cases i t ts with ⟨-, e⟩ | ⟨j, markers, -, -, e⟩ | ⟨-, -, e⟩ <;> rw [e] <;> rfl
      rw [htail, ih, List.drop_succ_cons]
      congr 2
      omega

/-- A balanced program leaves no marker open and takes none from what follows. -/
theorem Program.Balanced.markers_append {b : Program} (h : Balanced b) (i : Nat) (rest : Program) :
    (pairFrom i (b ++ rest)).2 = (pairFrom (i + b.length) rest).2 := by
  induction h generalizing i rest with
  | nil => rfl
  | @skip t ts hf hc _ ih =>
    have hlen : i + (t :: ts).length = i + 1 + ts.length := by simp; omega
    rw [List.cons_append, hlen, ← ih]
    simp [pairFrom, hf, hc]
  | @enclose t u inner after ht _ hu _ ihi ihr =>
    have hlen : i + (t :: (inner ++ u :: after)).length = i + 1 + inner.length + 1 + after.length := by simp; omega
    have hopen : (pairFrom (i + 1) (inner ++ u :: after ++ rest)).2 =
        (i + 1 + inner.length) :: (pairFrom (i + (t :: (inner ++ u :: after)).length) rest).2 := by
      rw [List.append_assoc, ihi, List.cons_append, pairFrom_cons_of_isForward _ hu, ihr, hlen]
    have hn : t.isForward = false := Token.isForward_of_isConditional ht
    simp only [List.cons_append, pairFrom, hopen, hn, ht, Bool.false_eq_true, ↓reduceIte]

/-- The first marker that is left open comes right after a balanced program. -/
theorem exists_balanced_of_markers {i j : Nat} {ts : Program} {markers : List Nat}
    (h : (pairFrom i ts).2 = j :: markers) :
    ∃ b u rest, ts = b ++ u :: rest ∧ Balanced b ∧ u.isForward ∧ j = i + b.length ∧
      (pairFrom (j + 1) rest).2 = markers := by
  -- behind the marker of a conditional the same is asked of what is left, so the induction is on the length
  induction hn : ts.length using Nat.strongRecOn generalizing i j ts markers with
  | ind n ih =>
    cases ts with
    | nil => simp [pairFrom] at h
    | cons t ts =>
      simp only [List.length_cons] at hn
      rcases pairFrom_cons_cases i t ts with ⟨hf, e⟩ | ⟨k, markers', hc, hm, e⟩ | ⟨hf, hm, e⟩
      · rw [e] at h
        obtain ⟨rfl, rfl⟩ := List.cons.inj h
        exact ⟨[], t, ts, rfl, .nil, hf, rfl, rfl⟩
      · rw [e] at h
        obtain rfl : markers' = j :: markers := h
        obtain ⟨inner, u, after, rfl, hinner, hu, rfl, hafter⟩ := ih ts.length (by omega) hm rfl
        obtain ⟨b, v, rest, rfl, hb, hv, rfl, hrest⟩ := ih after.length (by simp at hn; omega) hafter rfl
        refine ⟨t :: (inner ++ u :: b), v, rest, by simp, .enclose hc hinner hu hb, hv, ?_, hrest⟩
        simp
        omega
      · rw [e] at h
        have hc : t.isConditional = false := by
          cases hc : t.isConditional with
          | false => rfl
          | true =>
            rw [hm hc] at h
            cases h
        obtain ⟨b, u, rest, rfl, hb, hu, rfl, hrest⟩ := ih ts.length (by omega) h rfl
        refine ⟨t :: b, u, rest, rfl, .skip hf hc hb, hu, ?_, hrest⟩
        simp
        omega

/-- What is open first, said without pairing. -/
theorem head?_markers_iff {i j : Nat} {ts : Program} :
    (pairFrom i ts).2.head? = some j ↔
      ∃ b u rest, ts = b ++ u :: rest ∧ Balanced b ∧ u.isForward ∧ j = i + b.length := by
  constructor
  · intro h
    obtain ⟨markers, hm⟩ := List.head?_eq_some_iff.1 h
    obtain ⟨b, u, rest, hts, hb, hu, hj, -⟩ := exists_balanced_of_markers hm
    exact ⟨b, u, rest, hts, hb, hu, hj⟩
  · rintro ⟨b, u, rest, rfl, hb, hu, rfl⟩
    rw [hb.markers_append, pairFrom_cons_of_isForward _ hu]
    rfl

/-! ### Pairs -/

namespace Program

theorem partner?_eq_some_iff {p : Program} {i j : Nat} :
    p.partner? i = some j ↔ ∃ t, p[i]? = some t ∧ t.isConditional ∧ t.target? = some j := by
  unfold partner?
  cases p[i]? with
  | none => simp
  | some t => cases hc : t.isConditional <;> simp [Option.filter, hc]

/-- A pair, by what stands behind its conditional. -/
theorem encloses_iff {p : Program} {i j : Nat} :
    p.Encloses i j ↔ (∃ t, p[i]? = some t ∧ t.isConditional) ∧
      ∃ b u rest, p.drop (i + 1) = b ++ u :: rest ∧ Balanced b ∧ u.isForward ∧ j = i + 1 + b.length := by
  constructor
  · rintro ⟨hlt, hc, ⟨u, hu, hf⟩, hb⟩
    obtain ⟨hj, rfl⟩ := List.getElem?_eq_some_iff.1 hu
    refine ⟨hc, (p.take j).drop (i + 1), p[j], p.drop (j + 1), ?_, hb, hf, by simp; omega⟩
    rw [← List.drop_eq_getElem_cons hj, ← List.drop_append_of_le_length (by simp; omega), List.take_append_drop]
  · rintro ⟨hc, b, u, rest, hp, hb, hf, rfl⟩
    refine ⟨by omega, hc, ⟨u, ?_, hf⟩, ?_⟩
    · rw [← List.getElem?_drop, hp, List.getElem?_append_right (Nat.le_refl _)]
      simp
    · rw [List.drop_take, hp]
      have hlen : i + 1 + b.length - (i + 1) = b.length := by omega
      rw [hlen, List.take_left]
      exact hb

theorem getElem?_pair (ts : Program) (i : Nat) : (pair ts)[i]? = (pairFrom i (ts.drop i)).1.head? := by
  have h := drop_pairFrom 0 i ts
  rw [Nat.zero_add] at h
  rw [← h, List.head?_drop]
  rfl

/-- Pairing gives a conditional the first marker that is left open behind it. -/
theorem partner?_pair {ts : Program} (hts : ∀ t ∈ ts, t.isConditional → t.target? = none) (i : Nat) :
    (pair ts).partner? i =
      (ts[i]?.filter Token.isConditional).bind fun _ => (pairFrom (i + 1) (ts.drop (i + 1))).2.head? := by
  unfold partner?
  rw [getElem?_pair]
  cases ht : ts[i]? with
  | none =>
    rw [List.drop_eq_nil_of_le (List.getElem?_eq_none_iff.1 ht)]
    rfl
  | some t =>
    obtain ⟨hi, rfl⟩ := List.getElem?_eq_some_iff.1 ht
    rw [List.drop_eq_getElem_cons hi]
    rcases pairFrom_cons_cases i ts[i] (ts.drop (i + 1)) with ⟨hf, e⟩ | ⟨j, markers, hc, hm, e⟩ | ⟨hf, hm, e⟩
    · have hc : ts[i].isConditional = false := by
        cases hc : ts[i].isConditional with
        | false => rfl
        | true => rw [Token.isForward_of_isConditional hc] at hf; cases hf
      rw [e]
      simp [Option.filter, hc]
    · rw [e]
      simp [Option.filter, hc, hm, Token.target?_withTarget hc, Token.isConditional_withTarget]
    · rw [e]
      cases hc : ts[i].isConditional with
      | false => simp [Option.filter, hc]
      | true => simp [Option.filter, hc, hm hc, hts _ (List.getElem_mem hi) hc]

/-- Pairing finds the pairs that enclose balanced programs, and no others. -/
theorem partner?_pair_iff {ts : Program} (hts : ∀ t ∈ ts, t.isConditional → t.target? = none) {i j : Nat} :
    (pair ts).partner? i = some j ↔ ts.Encloses i j := by
  rw [partner?_pair hts, encloses_iff, ← head?_markers_iff]
  cases ts[i]? with
  | none => simp
  | some t => cases hc : t.isConditional <;> simp [Option.filter, hc]

/-- A conditional in a balanced program is paired within it. -/
theorem Balanced.exists_partner {b : Program} (h : Balanced b) {a c : Program} {t : Token} (hb : b = a ++ t :: c)
    (ht : t.isConditional) : ∃ inner u rest, c = inner ++ u :: rest ∧ Balanced inner ∧ u.isForward := by
  induction h generalizing a c with
  | nil => simp at hb
  | @skip v ts _ hv _ ih =>
    cases a with
    | nil =>
      obtain ⟨rfl, -⟩ := List.cons.inj hb
      rw [hv] at ht
      cases ht
    | cons _ a => exact ih (List.cons.inj hb).2
  | @enclose v u inner rest hv hi hu hr ihi ihr =>
    cases a with
    | nil =>
      obtain ⟨rfl, rfl⟩ := List.cons.inj hb
      exact ⟨inner, u, rest, rfl, hi, hu⟩
    | cons _ a =>
      -- the conditional stands within the pair or behind it
      rcases List.append_eq_append_iff.1 (List.cons.inj hb).2 with ⟨d, rfl, hd⟩ | ⟨d, rfl, hd⟩
      · cases d with
        | nil =>
          obtain ⟨rfl, -⟩ := List.cons.inj hd
          rw [Token.isForward_of_isConditional ht] at hu
          cases hu
        | cons _ d => exact ihr (List.cons.inj hd).2
      · cases d with
        | nil =>
          obtain ⟨rfl, -⟩ := List.cons.inj hd
          rw [Token.isForward_of_isConditional ht] at hu
          cases hu
        | cons _ d =>
          obtain ⟨rfl, rfl⟩ := List.cons.inj hd
          obtain ⟨inner', u', rest', rfl, hi', hu'⟩ := ihi rfl
          exact ⟨inner', u', rest' ++ u :: rest, by simp, hi', hu'⟩

/-- A conditional in a balanced part of a program has its partner in that part. -/
theorem Balanced.exists_encloses {p : Program} {k i j : Nat} (hb : Balanced ((p.take j).drop k)) (hk : k ≤ i)
    (hj : i < j) {t : Token} (ht : p[i]? = some t) (hc : t.isConditional) : ∃ j', p.Encloses i j' ∧ j' < j := by
  obtain ⟨hi, -⟩ := List.getElem?_eq_some_iff.1 ht
  have hsplit : (p.take j).drop k = ((p.take j).take i).drop k ++ t :: (p.take j).drop (i + 1) := by
    have hcons : (p.take j).drop i = t :: (p.take j).drop (i + 1) := by
      rw [List.drop_eq_getElem_cons (by simp; omega)]
      congr 1
      simpa [hi] using ht
    rw [← hcons, ← List.drop_append_of_le_length (by simp; omega), List.take_append_drop]
  obtain ⟨inner, u, rest, hinner, hbalanced, hu⟩ := hb.exists_partner hsplit hc
  refine ⟨i + 1 + inner.length, encloses_iff.2 ⟨⟨t, ht, hc⟩, inner, u, rest ++ p.drop j, ?_, hbalanced, hu, rfl⟩, ?_⟩
  · have hjoin : p.drop (i + 1) = (p.take j).drop (i + 1) ++ p.drop j := by
      rw [← List.drop_append_of_le_length (by simp; omega), List.take_append_drop]
    rw [hjoin, hinner]
    simp
  · have hlength := congrArg List.length hinner
    simp at hlength
    omega

theorem Encloses.unique {p : Program} {i j j' : Nat} (h : p.Encloses i j) (h' : p.Encloses i j') : j = j' := by
  have hj := head?_markers_iff.2 (encloses_iff.1 h).2
  have hj' := head?_markers_iff.2 (encloses_iff.1 h').2
  exact Option.some.inj (hj.symm.trans hj')

/-- Pairs stand one behind the other or one in the other. -/
theorem Encloses.behind_or_within {p : Program} {i j i' j' : Nat} (h : p.Encloses i j) (h' : p.Encloses i' j')
    (hlt : i < i') : j < i' ∨ j' < j := by
  obtain ⟨t, ht, hc⟩ := h'.conditional
  obtain ⟨u, hu, hf⟩ := h.marker
  rcases Nat.lt_trichotomy i' j with hin | rfl | hbehind
  · obtain ⟨k, hk, hkj⟩ := h.balanced.exists_encloses hlt hin ht hc
    right
    rwa [h'.unique hk]
  · -- a conditional is no marker
    obtain rfl := Option.some.inj (ht.symm.trans hu)
    rw [Token.isForward_of_isConditional hc] at hf
    cases hf
  · exact .inl hbehind

end Program

/-- A marker is left open, or a conditional is paired with it. -/
theorem mem_markers_or_partner {i k : Nat} {ts : Program} {u : Token} (hu : ts[k]? = some u) (hf : u.isForward) :
    i + k ∈ (pairFrom i ts).2 ∨ ∃ l, (pairFrom i ts).1.partner? l = some (i + k) := by
  induction ts generalizing i k with
  | nil => simp at hu
  | cons t ts ih =>
    cases k with
    | zero =>
      obtain rfl : t = u := by simpa using hu
      left
      rw [pairFrom_cons_of_isForward i hf]
      simp
    | succ k =>
      have hk : i + (k + 1) = i + 1 + k := by omega
      rw [hk]
      rcases pairFrom_cons_cases i t ts with ⟨-, e⟩ | ⟨j, markers, hc, hm, e⟩ | ⟨-, -, e⟩
      · rw [e]
        rcases ih (i := i + 1) (k := k) (by simpa using hu) with h | ⟨l, h⟩
        · exact .inl (List.mem_cons_of_mem i h)
        · exact .inr ⟨l + 1, h⟩
      · rw [e]
        rcases ih (i := i + 1) (k := k) (by simpa using hu) with h | ⟨l, h⟩
        · rw [hm] at h
          rcases List.mem_cons.1 h with h | h
          · right
            refine ⟨0, partner?_eq_some_iff.2 ⟨_, rfl, ?_, ?_⟩⟩
            · rw [Token.isConditional_withTarget, hc]
            · rw [Token.target?_withTarget hc, h]
          · exact .inl h
        · exact .inr ⟨l + 1, h⟩
      · rw [e]
        rcases ih (i := i + 1) (k := k) (by simpa using hu) with h | ⟨l, h⟩
        · exact .inl h
        · exact .inr ⟨l + 1, h⟩

/-! ### Pairing again -/

theorem pairFrom_pairFrom (i : Nat) (ts : Program) : pairFrom i (pairFrom i ts).1 = pairFrom i ts := by
  induction ts generalizing i with
  | nil => rfl
  | cons t ts ih =>
    rcases pairFrom_cons_cases i t ts with ⟨hf, e⟩ | ⟨j, markers, hc, hm, e⟩ | ⟨hf, hm, e⟩
    · rw [e]
      simp [pairFrom, ih, hf]
    · have hf : (t.withTarget j).isForward = false := by
        rw [Token.isForward_of_isConditional]
        rw [Token.isConditional_withTarget, hc]
      have htwice : (t.withTarget j).withTarget j = t.withTarget j := by cases t <;> rfl
      rw [e]
      simp [pairFrom, ih, hf, Token.isConditional_withTarget, hc, hm, htwice]
    · rw [e]
      cases hc : t.isConditional with
      | false => simp [pairFrom, ih, hf, hc]
      | true => simp [pairFrom, ih, hf, hc, hm hc]

namespace Program

/-- Pairing changes nothing but targets of conditionals. -/
theorem getElem?_pair_cases {ts : Program} {i : Nat} {t : Token} (ht : ts[i]? = some t) :
    (pair ts)[i]? = some t ∨ t.isConditional ∧ ∃ j, (pair ts)[i]? = some (t.withTarget j) := by
  obtain ⟨hi, rfl⟩ := List.getElem?_eq_some_iff.1 ht
  rw [getElem?_pair, List.drop_eq_getElem_cons hi]
  rcases pairFrom_cons_cases i ts[i] (ts.drop (i + 1)) with ⟨-, e⟩ | ⟨j, markers, hc, -, e⟩ | ⟨-, -, e⟩
  · exact .inl (by rw [e]; rfl)
  · exact .inr ⟨hc, j, by rw [e]; rfl⟩
  · exact .inl (by rw [e]; rfl)

/-- No conditional without a partner stands before a marker without one. -/
theorem not_lt_of_unpaired {ts : Program} (hts : ∀ t ∈ ts, t.isConditional → t.target? = none) {i j : Nat}
    {t u : Token} (ht : ts[i]? = some t) (hc : t.isConditional) (hi : (pair ts).partner? i = none)
    (hu : ts[j]? = some u) (hf : u.isForward) (hj : ∀ k, (pair ts).partner? k ≠ some j) : ¬ i < j := by
  intro hlt
  rw [partner?_pair hts, ht] at hi
  have hopen : (pairFrom (i + 1) (ts.drop (i + 1))).2 = [] := by simpa [Option.filter, hc] using hi
  have hk : i + 1 + (j - (i + 1)) = j := by omega
  have hmarker : (ts.drop (i + 1))[j - (i + 1)]? = some u := by rw [List.getElem?_drop, hk, hu]
  rcases mem_markers_or_partner (i := i + 1) hmarker hf with h | ⟨l, h⟩
  · rw [hopen] at h
    cases h
  · refine hj (i + 1 + l) ?_
    rw [hk] at h
    have hdrop := drop_pairFrom 0 (i + 1) ts
    rw [Nat.zero_add] at hdrop
    rw [← hdrop] at h
    unfold partner? at h ⊢
    rwa [List.getElem?_drop] at h

/-- Pairing is bracket matching.  Done twice it is the same as done once, and it changes nothing but the targets of
conditionals.  If these had none before, a conditional is paired with a marker exactly if the two enclose a balanced
program.  So no two conditionals share a marker, pairs do not cross, and no conditional without a partner stands before
a marker without one. -/
theorem pair_matches (ts : Program) :
    pair (pair ts) = pair ts ∧ (pair ts).length = ts.length ∧
    (∀ (i : Nat) (t : Token), ts[i]? = some t →
      (pair ts)[i]? = some t ∨ t.isConditional ∧ ∃ j, (pair ts)[i]? = some (t.withTarget j)) ∧
    ((∀ t ∈ ts, t.isConditional → t.target? = none) →
      (∀ i j, (pair ts).partner? i = some j ↔ ts.Encloses i j) ∧
      (∀ i i' j, (pair ts).partner? i = some j → (pair ts).partner? i' = some j → i = i') ∧
      (∀ i j i' j', (pair ts).partner? i = some j → (pair ts).partner? i' = some j' → i < i' → j < i' ∨ j' < j) ∧
      (∀ (i j : Nat) (t u : Token), ts[i]? = some t → t.isConditional → (pair ts).partner? i = none →
        ts[j]? = some u → u.isForward → (∀ k, (pair ts).partner? k ≠ some j) → ¬ i < j)) := by
  refine ⟨congrArg Prod.fst (pairFrom_pairFrom 0 ts), length_pairFrom 0 ts, fun i t => getElem?_pair_cases, ?_⟩
  intro hts
  refine ⟨fun i j => partner?_pair_iff hts, ?_, ?_, fun i j t u => not_lt_of_unpaired hts⟩
  · intro i i' j h h'
    rw [partner?_pair_iff hts] at h h'
    -- of two pairs with one marker the later conditional would have to stand behind it
    rcases Nat.lt_trichotomy i i' with hlt | heq | hlt
    · have := h.behind_or_within h' hlt
      have := h'.lt
      omega
    · exact heq
    · have := h'.behind_or_within h hlt
      have := h.lt
      omega
  · intro i j i' j' h h' hlt
    rw [partner?_pair_iff hts] at h h'
    exact h.behind_or_within h' hlt

/-- The source `then if if dup then if then then if`: the first marker and the last conditional have no partner. -/
theorem pair_matches_nested :
    let known := fun b : Builtin => Token.builtin (.known b) none {}
    let ts : Program := [known .forward, known .conditional, known .conditional, known (.operator .duplicate),
      known .forward, known .conditional, known .forward, known .forward, known .conditional]
    (∀ t ∈ ts, t.isConditional → t.target? = none) ∧
      ts.Encloses 1 7 ∧ ts.Encloses 2 4 ∧ ts.Encloses 5 6 ∧ (∀ i, ¬ ts.Encloses i 0) ∧ ∀ j, ¬ ts.Encloses 8 j := by
  intro known ts
  have hts : ∀ t ∈ ts, t.isConditional → t.target? = none := by decide
  obtain ⟨-, -, -, hmatches⟩ := pair_matches ts
  obtain ⟨hpairs, -, -, -⟩ := hmatches hts
  refine ⟨hts, (hpairs 1 7).1 rfl, (hpairs 2 4).1 rfl, (hpairs 5 6).1 rfl, fun i h => ?_, fun j h => ?_⟩
  · exact absurd h.lt (by omega)
  · cases (hpairs 8 j).2 h

end Program

end Catena
