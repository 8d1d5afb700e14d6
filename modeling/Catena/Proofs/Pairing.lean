import Catena.Source.Program

/-!
# Pairing of conditionals

Facts about `pairFrom` and `Program.pair` on tokens as they are read from a source (`Token.isFresh`).

* Pairing a program that stands elsewhere moves all targets along (`pairFrom_add`).
* A program whose conditionals all find a marker keeps these markers whatever follows it
  (`pairFrom_append`).
* A conditional is paired with a marker behind it (`Program.pair_jumpsAhead`).
-/

namespace Catena

namespace Token

/-- The index that a token jumps to. -/
def target? : Token → Option Nat
  | builtin _ target _ => target
  | _ => none

/-- A token as it is read from a source, before conditionals are paired: builtins are known and have no target. -/
def isFresh : Token → Bool
  | builtin (.known _) none _ | word .. | data .. | definition .. => true
  | _ => false

/-- Whether a token that refers to a builtin does so by its name. -/
def isKnown : Token → Bool
  | builtin (.named _) _ _ => false
  | _ => true

/-- Whether a token acts as a conditional, under its own name or by a spelling. -/
def branches : Token → Bool
  | builtin ref _ _ => ref.resolve? = some .conditional
  | _ => false

/-- Whether a token acts as a repetition, under its own name or by a spelling. -/
def repeats : Token → Bool
  | builtin ref _ _ => ref.resolve? = some .repetition
  | _ => false

/-- Moves the target of a token. -/
def shift (k : Nat) : Token → Token
  | builtin ref target origin => builtin ref (target.map (· + k)) origin
  | t => t

theorem isForward_builtin (ref : Reference) (target : Option Nat) (origin : Origin) :
    (builtin ref target origin).isForward = decide (ref = .known .forward) := by
  cases ref with
  | known b => cases b <;> simp [isForward]
  | named name => simp [isForward]

theorem isConditional_builtin (ref : Reference) (target : Option Nat) (origin : Origin) :
    (builtin ref target origin).isConditional = decide (ref = .known .conditional) := by
  cases ref with
  | known b => cases b <;> simp [isConditional]
  | named name => simp [isConditional]

theorem isRepetition_builtin (ref : Reference) (target : Option Nat) (origin : Origin) :
    (builtin ref target origin).isRepetition = decide (ref = .known .repetition) := by
  cases ref with
  | known b => cases b <;> simp [isRepetition]
  | named name => simp [isRepetition]

theorem eq_builtin_of_repeats {t : Token} (h : t.repeats) :
    ∃ ref target origin, t = builtin ref target origin ∧ ref.resolve? = some .repetition := by
  cases t with
  | builtin ref target origin => exact ⟨ref, target, origin, rfl, by simpa [repeats] using h⟩
  | _ => simp [repeats] at h

theorem repeats_of_isKnown {t : Token} (h : t.isKnown) : t.repeats = t.isRepetition := by
  cases t with
  | builtin ref target origin =>
    cases ref with
    | known b => rw [isRepetition_builtin]; simp [repeats, Reference.resolve?]
    | named name => simp [isKnown] at h
  | _ => rfl

theorem isKnown_of_isFresh {t : Token} (h : t.isFresh) : t.isKnown := by
  cases t with
  | builtin ref target origin =>
    cases ref with
    | known b => rfl
    | named name => simp [isFresh] at h
  | _ => rfl

@[simp] theorem isConditional_shift (k : Nat) (t : Token) : (t.shift k).isConditional = t.isConditional := by
  cases t <;> simp [shift, isConditional_builtin]

@[simp] theorem isRepetition_shift (k : Nat) (t : Token) : (t.shift k).isRepetition = t.isRepetition := by
  cases t <;> simp [shift, isRepetition_builtin]

@[simp] theorem label_shift (k : Nat) (t : Token) : (t.shift k).label = t.label := by
  cases t <;> rfl

@[simp] theorem origin_shift (k : Nat) (t : Token) : (t.shift k).origin = t.origin := by
  cases t <;> rfl

@[simp] theorem unspelled?_shift (k : Nat) (t : Token) : (t.shift k).unspelled? = t.unspelled? := by
  cases t with
  | builtin ref target origin => cases ref <;> rfl
  | _ => rfl

theorem shift_withTarget (k j : Nat) (t : Token) : (t.withTarget j).shift k = (t.shift k).withTarget (j + k) := by
  cases t <;> rfl

theorem target?_of_isFresh {t : Token} (h : t.isFresh) : t.target? = none := by
  cases t with
  | builtin ref target origin =>
    cases ref with
    | known b =>
      cases target with
      | none => rfl
      | some j => simp [isFresh] at h
    | named name => simp [isFresh] at h
  | _ => rfl

/-- A fresh token has no target to move. -/
theorem shift_of_isFresh {t : Token} (h : t.isFresh) (k : Nat) : t.shift k = t := by
  have ht := target?_of_isFresh h
  cases t with
  | builtin ref target origin =>
    have : target = none := ht
    simp [shift, this]
  | _ => rfl

theorem target?_withTarget {t : Token} (h : t.isConditional) (j : Nat) : (t.withTarget j).target? = some j := by
  cases t <;> simp_all [withTarget, target?, isConditional]

theorem isKnown_withTarget (t : Token) (j : Nat) : (t.withTarget j).isKnown = t.isKnown := by
  cases t with
  | builtin ref target origin => cases ref <;> rfl
  | _ => rfl

theorem isRepetition_withTarget (t : Token) (j : Nat) : (t.withTarget j).isRepetition = t.isRepetition := by
  cases t <;> simp [withTarget, isRepetition_builtin]

theorem isForward_of_isConditional {t : Token} (h : t.isConditional) : t.isForward = false := by
  cases t with
  | builtin ref target origin =>
    rw [isConditional_builtin] at h
    rw [isForward_builtin, of_decide_eq_true h]
    rfl
  | _ => rfl

end Token

/-- What pairing does with the first token: a marker stays open for the conditionals before it, a conditional takes
the first open marker, and any other token, or a conditional without an open marker, is left alone. -/
theorem pairFrom_cons_cases (i : Nat) (t : Token) (ts : Program) :
    (t.isForward ∧ pairFrom i (t :: ts) = (t :: (pairFrom (i + 1) ts).1, i :: (pairFrom (i + 1) ts).2)) ∨
    (∃ j markers, t.isConditional ∧ (pairFrom (i + 1) ts).2 = j :: markers ∧
      pairFrom i (t :: ts) = (t.withTarget j :: (pairFrom (i + 1) ts).1, markers)) ∨
    (t.isForward = false ∧ (t.isConditional → (pairFrom (i + 1) ts).2 = []) ∧
      pairFrom i (t :: ts) = (t :: (pairFrom (i + 1) ts).1, (pairFrom (i + 1) ts).2)) := by
  by_cases hf : t.isForward
  · left
    simp [pairFrom, hf]
  · right
    by_cases hc : t.isConditional
    · cases hm : (pairFrom (i + 1) ts).2 with
      | nil => right; simp [pairFrom, hf, hc, hm]
      | cons j markers => left; exact ⟨j, markers, by simp [pairFrom, hf, hc, hm]⟩
    · right
      simp [pairFrom, hf, hc]

/-- Pairing a program that stands `k` places further on moves its targets and its open markers by `k`. -/
theorem pairFrom_add {ts : Program} (h : ∀ t ∈ ts, t.isFresh) (i k : Nat) :
    pairFrom (i + k) ts = ((pairFrom i ts).1.map (Token.shift k), (pairFrom i ts).2.map (· + k)) := by
  induction ts generalizing i with
  | nil => rfl
  | cons t ts ih =>
    have ht := Token.shift_of_isFresh (h t (by simp)) k
    have hi := ih (fun u hu => h u (by simp [hu])) (i + 1)
    rw [Nat.add_right_comm] at hi
    simp only [pairFrom, hi]
    by_cases hf : t.isForward
    · simp [hf, ht]
    · by_cases hc : t.isConditional
      · cases (pairFrom (i + 1) ts).2 with
        | nil => simp [hf, hc, ht]
        | cons j markers => simp [hf, hc, ht, Token.shift_withTarget]
      · simp [hf, hc, ht]

theorem pairFrom_eq_shift {ts : Program} (h : ∀ t ∈ ts, t.isFresh) (i : Nat) :
    (pairFrom i ts).1 = (Program.pair ts).map (Token.shift i) := by
  have hadd := pairFrom_add h 0 i
  rw [Nat.zero_add] at hadd
  rw [hadd]
  rfl

theorem length_pairFrom (i : Nat) (ts : Program) : (pairFrom i ts).1.length = ts.length := by
  induction ts generalizing i with
  | nil => rfl
  | cons t ts ih =>
    rcases pairFrom_cons_cases i t ts with ⟨-, e⟩ | ⟨j, markers, -, -, e⟩ | ⟨-, -, e⟩ <;> simp [e, ih]

/-- Pairing changes nothing but targets. -/
theorem map_pairFrom {β : Type} {g : Token → β} (hg : ∀ t j, g (t.withTarget j) = g t) (i : Nat) (ts : Program) :
    (pairFrom i ts).1.map g = ts.map g := by
  induction ts generalizing i with
  | nil => rfl
  | cons t ts ih =>
    rcases pairFrom_cons_cases i t ts with ⟨-, e⟩ | ⟨j, markers, -, -, e⟩ | ⟨-, -, e⟩ <;> simp [e, ih, hg]

/-- Pairing looks at tokens only to see which are markers and which are conditionals. -/
theorem pairFrom_map {g : Token → Token} (hf : ∀ t, (g t).isForward = t.isForward)
    (hc : ∀ t, (g t).isConditional = t.isConditional) (hw : ∀ t j, g (t.withTarget j) = (g t).withTarget j)
    (i : Nat) (ts : Program) : pairFrom i (ts.map g) = ((pairFrom i ts).1.map g, (pairFrom i ts).2) := by
  induction ts generalizing i with
  | nil => rfl
  | cons t ts ih =>
    rw [List.map_cons, pairFrom, ih]
    rcases pairFrom_cons_cases i t ts with ⟨ht, e⟩ | ⟨j, markers, ht, hm, e⟩ | ⟨ht, hm, e⟩
    · simp [e, hf, ht]
    · have hn : t.isForward = false := Token.isForward_of_isConditional ht
      simp [e, hf, hc, ht, hn, hm, hw]
    · cases hif : t.isConditional with
      | true => simp [e, hf, hc, ht, hif, hm hif]
      | false => simp [e, hf, hc, ht, hif]

namespace Program

theorem map_pair {β : Type} {g : Token → β} (hg : ∀ t j, g (t.withTarget j) = g t) (ts : Program) :
    (pair ts).map g = ts.map g :=
  map_pairFrom hg 0 ts

theorem exists_of_mem_pair {β : Type} {g : Token → β} (hg : ∀ t j, g (t.withTarget j) = g t) {ts : Program} {t : Token}
    (ht : t ∈ pair ts) : ∃ u ∈ ts, g u = g t := by
  have hmem : g t ∈ (pair ts).map g := List.mem_map_of_mem ht
  rw [map_pair hg] at hmem
  exact List.mem_map.1 hmem

theorem pair_map {g : Token → Token} (hf : ∀ t, (g t).isForward = t.isForward)
    (hc : ∀ t, (g t).isConditional = t.isConditional) (hw : ∀ t j, g (t.withTarget j) = (g t).withTarget j)
    (ts : Program) : pair (ts.map g) = (pair ts).map g := by
  unfold pair
  rw [pairFrom_map hf hc hw]

/-- Whether every conditional of a program has a target. -/
def IsClosed (p : Program) : Prop := ∀ t ∈ p, t.isConditional → t.target?.isSome

instance (p : Program) : Decidable p.IsClosed :=
  inferInstanceAs (Decidable (∀ t ∈ p, t.isConditional → t.target?.isSome))

/-- Every target of a conditional is the index of a marker behind it in the same program. -/
def JumpsAhead (p : Program) : Prop :=
  ∀ (i : Nat) (t : Token) (j : Nat), p[i]? = some t → t.branches → t.target? = some j →
    i < j ∧ ∃ u : Token, p[j]? = some u ∧ u.isForward

theorem IsClosed.tail {t : Token} {p : Program} (h : IsClosed (t :: p)) : IsClosed p :=
  fun u hu => h u (List.mem_cons_of_mem t hu)

end Program

/-- The markers that a closed program needs are its own, so pairing it does not depend on what follows. -/
theorem pairFrom_append {a : Program} (ha : ∀ t ∈ a, t.isFresh) (b : Program) (i : Nat)
    (hc : Program.IsClosed (pairFrom i a).1) :
    pairFrom i (a ++ b) =
      ((pairFrom i a).1 ++ (pairFrom (i + a.length) b).1, (pairFrom i a).2 ++ (pairFrom (i + a.length) b).2) := by
  induction a generalizing i with
  | nil => rfl
  | cons t a ih =>
    have hlen : i + (t :: a).length = i + 1 + a.length := by simp; omega
    have key := fun h => ih (fun u hu => ha u (by simp [hu])) (i + 1) h
    rw [List.cons_append, hlen]
    rcases pairFrom_cons_cases i t a with ⟨hf, e⟩ | ⟨j, markers, hif, hm, e⟩ | ⟨hf, hm, e⟩
    · rw [e] at hc ⊢
      simp [pairFrom, hf, key hc.tail]
    · rw [e] at hc ⊢
      have hf : t.isForward = false := Token.isForward_of_isConditional hif
      simp [pairFrom, hf, hif, key hc.tail, hm]
    · rw [e] at hc ⊢
      -- an open conditional would be left without a target
      have hif : t.isConditional = false := by
        cases hif : t.isConditional with
        | false => rfl
        | true =>
          have h1 := hc t (by simp) hif
          simp [Token.target?_of_isFresh (ha t (by simp))] at h1
      simp [pairFrom, hf, hif, key hc.tail]

/-- The program that starts at the index `i` has a marker at the index `j`. -/
private def HasMarker (i : Nat) (p : Program) (j : Nat) : Prop :=
  i ≤ j ∧ ∃ u : Token, p[j - i]? = some u ∧ u.isForward

private theorem HasMarker.cons {i : Nat} {p : Program} {j : Nat} (h : HasMarker (i + 1) p j) (t : Token) :
    HasMarker i (t :: p) j := by
  obtain ⟨hij, u, hu, hf⟩ := h
  have e : j - i = j - (i + 1) + 1 := by omega
  exact ⟨by omega, u, by rw [e, List.getElem?_cons_succ, hu], hf⟩

private theorem hasMarker_of_mem_pairFrom {i j : Nat} {ts : Program} (h : j ∈ (pairFrom i ts).2) :
    HasMarker i (pairFrom i ts).1 j := by
  induction ts generalizing i with
  | nil => simp [pairFrom] at h
  | cons t ts ih =>
    rcases pairFrom_cons_cases i t ts with ⟨hf, e⟩ | ⟨k, markers, -, hm, e⟩ | ⟨-, -, e⟩
    · rw [e] at h ⊢
      rcases List.mem_cons.1 h with rfl | h
      · exact ⟨Nat.le_refl j, t, by simp, hf⟩
      · exact (ih h).cons t
    · rw [e] at h ⊢
      exact (ih (by rw [hm]; exact List.mem_cons_of_mem k h)).cons _
    · rw [e] at h ⊢
      exact (ih h).cons t

private theorem hasMarker_of_target? {i k j : Nat} {ts : Program} {t : Token} (hts : ∀ t ∈ ts, t.isFresh)
    (ht : (pairFrom i ts).1[k]? = some t) (hj : t.target? = some j) :
    i + k < j ∧ HasMarker i (pairFrom i ts).1 j := by
  induction ts generalizing i k with
  | nil => simp [pairFrom] at ht
  | cons u ts ih =>
    have hu := Token.target?_of_isFresh (hts u (by simp))
    have hts' : ∀ t ∈ ts, t.isFresh := fun v hv => hts v (by simp [hv])
    cases k with
    | zero =>
      -- only pairing has given the first token a target, and markers that are open lie behind it
      rcases pairFrom_cons_cases i u ts with ⟨-, e⟩ | ⟨l, markers, hc, hm, e⟩ | ⟨-, -, e⟩
      · simp only [e, List.getElem?_cons_zero, Option.some.injEq] at ht
        rw [← ht, hu] at hj
        exact absurd hj (by simp)
      · simp only [e, List.getElem?_cons_zero, Option.some.injEq] at ht
        rw [← ht, Token.target?_withTarget hc] at hj
        have hmark : HasMarker (i + 1) (pairFrom (i + 1) ts).1 l := hasMarker_of_mem_pairFrom (by rw [hm]; simp)
        obtain rfl : l = j := by simpa using hj
        rw [e]
        exact ⟨hmark.1, hmark.cons _⟩
      · simp only [e, List.getElem?_cons_zero, Option.some.injEq] at ht
        rw [← ht, hu] at hj
        exact absurd hj (by simp)
    | succ k =>
      have htail : ∃ v markers, pairFrom i (u :: ts) = (v :: (pairFrom (i + 1) ts).1, markers) := by
        rcases pairFrom_cons_cases i u ts with ⟨-, e⟩ | ⟨l, markers, -, -, e⟩ | ⟨-, -, e⟩ <;> exact ⟨_, _, e⟩
      obtain ⟨v, markers, e⟩ := htail
      rw [e] at ht ⊢
      obtain ⟨hlt, hmark⟩ := ih hts' (by simpa using ht)
      exact ⟨by omega, hmark.cons v⟩

theorem Program.target?_lt_of_mem_pair {ts : Program} (h : ∀ t ∈ ts, t.isFresh) {t : Token} {j : Nat}
    (ht : t ∈ Program.pair ts) (hj : t.target? = some j) : j < (Program.pair ts).length := by
  obtain ⟨k, hk⟩ := List.getElem?_of_mem ht
  obtain ⟨-, -, u, hu, -⟩ := hasMarker_of_target? h hk hj
  exact (List.getElem?_eq_some_iff.1 hu).1

/-- Pairing gives conditionals targets behind them only. -/
theorem Program.pair_jumpsAhead {ts : Program} (h : ∀ t ∈ ts, t.isFresh) : (Program.pair ts).JumpsAhead := by
  intro i t j ht _ hj
  obtain ⟨hlt, -, u, hu, hf⟩ := hasMarker_of_target? h ht hj
  exact ⟨by omega, u, by simpa [Program.pair] using hu, hf⟩

/-- A token with no target. -/
private def Token.untargeted : Token → Token
  | .builtin ref _ origin => .builtin ref none origin
  | t => t

/-- Tokens as they are read can be told from their pairing. -/
theorem Program.eq_of_pair_eq {ts us : Program} (hts : ∀ t ∈ ts, t.isFresh) (hus : ∀ u ∈ us, u.isFresh)
    (h : Program.pair ts = Program.pair us) : ts = us := by
  have hwith : ∀ (t : Token) j, (t.withTarget j).untargeted = t.untargeted := by
    intro t j
    cases t <;> rfl
  have hself : ∀ p : Program, (∀ t ∈ p, t.isFresh) → p.map Token.untargeted = p := by
    intro p hp
    refine (List.map_congr_left fun t ht => ?_).trans (List.map_id' p)
    have htarget := Token.target?_of_isFresh (hp t ht)
    cases t with
    | builtin ref target origin =>
      obtain rfl : target = none := htarget
      rfl
    | _ => rfl
  rw [← hself ts hts, ← hself us hus, ← Program.map_pair hwith ts, ← Program.map_pair hwith us, h]

end Catena
