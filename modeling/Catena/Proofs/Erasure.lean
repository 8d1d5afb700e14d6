import Mathlib.Data.Nat.Count
import Catena.Proofs.Agreement
import Catena.Proofs.Matching
import Catena.Proofs.Positions

/-!
# Tokens that can be left out

A definition, a marker that no conditional is paired with and a word that need not be defined do nothing in a run
(`Token.IsIdle`).  A program without some of these runs like the program with them (`interpret_pair_without`), unless
one stands right behind a repetition, which would then repeat another token.

* Leaving tokens out gives all others new numbers, `Nat.count` of those before them that stay.  Pairing follows them
  (`Spares.pairFrom_eq`), as no marker that is left out ends a conditional.
* A walk passes a token that is left out in a step that changes nothing, and takes any other step alike, to a new number
  (`Spares.step_eq`).  So both walks end alike (`Spares.walk_agrees`), and they only differ in how many steps they take.
-/

namespace Catena

namespace Program

/-- A program that starts at an index, without the tokens at the indices that are gone. -/
def withoutFrom (gone : Nat → Bool) : (index : Nat) → Program → Program
  | _, [] => []
  | i, t :: ts => if gone i then withoutFrom gone (i + 1) ts else t :: withoutFrom gone (i + 1) ts

/-- A program without the tokens at the indices that are gone. -/
def without (p : Program) (gone : Nat → Bool) : Program := withoutFrom gone 0 p

/-- The token at an index can be left out: it is a definition, a marker that pairing leaves without a conditional, or,
where that is no error, a word that is not defined. -/
inductive IsSpare (s : Settings) (p : Program) (i : Nat) : Prop where
  | definition {name : String} {body : Program} {o : Origin} (ht : p[i]? = some (.definition name body o))
  | marker {t : Token} (ht : p[i]? = some t) (hf : t.isForward) (hp : ∀ k, (pair p).partner? k ≠ some i)
  | word {name : String} {o : Origin} (ht : p[i]? = some (.word name o)) (hs : s.strict = false)
      (hw : s.words.body? name = none)

/-- What is gone can be left out, and none of it stands right behind a repetition. -/
structure CanSpare (s : Settings) (p : Program) (gone : Nat → Bool) : Prop where
  isSpare (i : Nat) (hi : i < p.length) (hg : gone i) : p.IsSpare s i
  repeated (i : Nat) (t : Token) (ht : p[i]? = some t) (hr : t.isRepetition) (hi : i + 1 < p.length) :
    gone (i + 1) = false

end Program

/-- A token that a run passes without doing anything. -/
inductive Token.IsIdle (s : Settings) : Token → Prop where
  | definition {name : String} {body : Program} {o : Origin} : IsIdle s (.definition name body o)
  | marker {target : Option Nat} {o : Origin} : IsIdle s (.builtin (.known .forward) target o)
  | word {name : String} {o : Origin} (hs : s.strict = false) (hw : s.words.body? name = none) :
      IsIdle s (.word name o)

theorem Token.IsIdle.step_eq {f : Frame} {t : Token} (h : t.IsIdle f.settings) (i : Nat) (following : Program)
    (m : Machine) : step f i t following m = .next (i + 1) m := by
  cases h with
  | definition => simp only [step]
  | marker => simp only [step, Reference.resolve?]
  | word hs hw => simp [step, hs, hw]

theorem Token.IsIdle.isConditional_eq_false {s : Settings} {t : Token} (h : t.IsIdle s) : t.isConditional = false := by
  cases h <;> rfl

/-- In a program that starts at an index, what is gone is idle and no conditional jumps to it, and a repetition keeps
the token that it repeats. -/
structure Spares (s : Settings) (gone : Nat → Bool) (index : Nat) (ts : Program) : Prop where
  isIdle (k : Nat) (t : Token) (ht : ts[k]? = some t) (hg : gone (index + k)) : t.IsIdle s
  target (t : Token) (ht : t ∈ ts) (j : Nat) (hj : t.target? = some j) : gone j = false
  repeated (k : Nat) (t : Token) (ht : ts[k]? = some t) (hr : t.isRepetition) (hk : k + 1 < ts.length) :
    gone (index + k + 1) = false

namespace Spares

variable {s : Settings} {gone : Nat → Bool} {i : Nat} {t : Token} {ts : Program}

theorem tail (h : Spares s gone i (t :: ts)) : Spares s gone (i + 1) ts where
  isIdle k u hu hg := h.isIdle (k + 1) u (by simpa using hu) (by rwa [Nat.add_right_comm] at hg)
  target u hu := h.target u (List.mem_cons_of_mem t hu)
  repeated k u hu hr hk := by
    have hgone := h.repeated (k + 1) u (by simpa using hu) hr (by simpa using hk)
    rwa [Nat.add_right_comm i 1 k]

theorem head_isIdle (h : Spares s gone i (t :: ts)) (hg : gone i) : t.IsIdle s := h.isIdle 0 t rfl hg

end Spares

/-! ### New numbers -/

/-- The number that a token at an index has when those that are gone are left out. -/
abbrev numberWithout (gone : Nat → Bool) (i : Nat) : Nat := Nat.count (gone · = false) i

section

variable {gone : Nat → Bool} {i : Nat}

theorem numberWithout_succ_of_kept (h : gone i = false) : numberWithout gone (i + 1) = numberWithout gone i + 1 :=
  Nat.count_succ_eq_succ_count_iff.2 h

theorem numberWithout_succ_of_gone (h : gone i) : numberWithout gone (i + 1) = numberWithout gone i :=
  Nat.count_succ_eq_count_iff.2 (by simp [h])

theorem Program.withoutFrom_cons_of_kept (h : gone i = false) (t : Token) (ts : Program) :
    withoutFrom gone i (t :: ts) = t :: withoutFrom gone (i + 1) ts := by
  rw [withoutFrom, h]
  rfl

theorem Program.withoutFrom_cons_of_gone (h : gone i) (t : Token) (ts : Program) :
    withoutFrom gone i (t :: ts) = withoutFrom gone (i + 1) ts := by
  rw [withoutFrom, if_pos h]

end

theorem Token.renumber_of_isFresh {t : Token} (h : t.isFresh) (g : Nat → Nat) : t.renumber g = t := by
  have htarget := Token.target?_of_isFresh h
  cases t with
  | builtin ref target origin =>
    obtain rfl : target = none := htarget
    rfl
  | _ => rfl

theorem Token.renumber_withTarget (g : Nat → Nat) (j : Nat) (t : Token) :
    (t.withTarget j).renumber g = t.withTarget (g j) := by
  cases t <;> rfl

namespace Spares

variable {s : Settings} {gone : Nat → Bool} {i : Nat} {ts : Program}

/-- Pairing without the tokens that are gone gives the same pairs under their new numbers. -/
theorem pairFrom_eq (hts : ∀ t ∈ ts, t.isFresh) (h : Spares s gone i (pairFrom i ts).1) :
    pairFrom (numberWithout gone i) (Program.withoutFrom gone i ts) =
      ((Program.withoutFrom gone i (pairFrom i ts).1).map (Token.renumber (numberWithout gone)),
        ((pairFrom i ts).2.filter (gone · = false)).map (numberWithout gone)) := by
  induction ts generalizing i with
  | nil => rfl
  | cons t ts ih =>
    have ht : t.isFresh := hts t (by simp)
    have hrest := fun h => ih (i := i + 1) (fun u hu => hts u (by simp [hu])) h
    rcases pairFrom_cons_cases i t ts with ⟨hf, e⟩ | ⟨j, markers, hc, hm, e⟩ | ⟨hf, hm, e⟩
    · rw [e] at h ⊢
      have key := hrest h.tail
      cases hg : gone i with
      | true =>
        rw [numberWithout_succ_of_gone hg] at key
        rw [Program.withoutFrom_cons_of_gone hg, Program.withoutFrom_cons_of_gone hg, key]
        simp [hg]
      | false =>
        rw [numberWithout_succ_of_kept hg] at key
        rw [Program.withoutFrom_cons_of_kept hg, Program.withoutFrom_cons_of_kept hg, pairFrom, key]
        simp [hf, hg, Token.renumber_of_isFresh ht]
    · rw [e] at h ⊢
      have key := hrest h.tail
      have hcond : (t.withTarget j).isConditional := by rw [Token.isConditional_withTarget, hc]
      have hn : t.isForward = false := Token.isForward_of_isConditional hc
      -- neither the conditional nor its marker is gone
      have hg : gone i = false := by
        cases hg : gone i with
        | false => rfl
        | true =>
          rw [(h.head_isIdle hg).isConditional_eq_false] at hcond
          cases hcond
      have hj : gone j = false := h.target _ (List.mem_cons_self ..) j (Token.target?_withTarget hc j)
      rw [numberWithout_succ_of_kept hg, hm] at key
      rw [Program.withoutFrom_cons_of_kept hg, Program.withoutFrom_cons_of_kept hg, pairFrom, key]
      simp [hn, hc, hj, Token.renumber_withTarget]
    · rw [e] at h ⊢
      have key := hrest h.tail
      cases hg : gone i with
      | true =>
        rw [numberWithout_succ_of_gone hg] at key
        rw [Program.withoutFrom_cons_of_gone hg, Program.withoutFrom_cons_of_gone hg, key]
      | false =>
        rw [numberWithout_succ_of_kept hg] at key
        rw [Program.withoutFrom_cons_of_kept hg, Program.withoutFrom_cons_of_kept hg, pairFrom, key]
        cases hc : t.isConditional with
        | false => simp [hf, Token.renumber_of_isFresh ht]
        | true => simp [hf, hm hc, Token.renumber_of_isFresh ht]

end Spares

/-! ### Steps and walks -/

theorem Halt.blame_renumber (why : Halt) (t : Token) (g : Nat → Nat) (st : Stack) :
    why.blame (t.renumber g) st = why.blame t st := by
  cases why with
  | passed failure => rfl
  | raised cause =>
    cases t with
    | builtin ref target origin => cases ref <;> rfl
    | _ => rfl

namespace Spares

variable {s : Settings} {gone : Nat → Bool} {i : Nat} {t : Token} {ts : Program}

private theorem step_eq_of_not_repeats (h : Spares s gone i (t :: ts)) (hg : gone i = false) (ht : t.repeats = false)
    (f : Frame) (following following' : Program) (m : Machine) :
    step f (numberWithout gone i) (t.renumber (numberWithout gone)) following' m =
      (step f i t following m).renumber (numberWithout gone) := by
  have htarget : ∀ j, t.target? = some j → numberWithout gone (j + 1) = numberWithout gone j + 1 :=
    fun j hj => numberWithout_succ_of_kept (h.target t (List.mem_cons_self ..) j hj)
  exact step_renumber_of_not_repeats ht (numberWithout_succ_of_kept hg) htarget following following' m

/-- A token that is not gone takes the same step among those that are left, under their new numbers. -/
theorem step_eq (h : Spares s gone i (t :: ts)) (hknown : ∀ u ∈ t :: ts, u.isKnown) (hg : gone i = false) (f : Frame)
    (m : Machine) :
    step f (numberWithout gone i) (t.renumber (numberWithout gone))
        ((Program.withoutFrom gone (i + 1) ts).map (Token.renumber (numberWithout gone))) m =
      (step f i t ts m).renumber (numberWithout gone) := by
  induction ts generalizing f i t m with
  | nil =>
    cases ht : t.repeats with
    | false => exact h.step_eq_of_not_repeats hg ht f _ _ m
    | true => exact step_renumber_of_repeats_nothing ht m
  | cons body rest ih =>
    cases ht : t.repeats with
    | false => exact h.step_eq_of_not_repeats hg ht f _ _ m
    | true =>
      -- the repeated token is not gone either, and takes a step of its own
      have hrep : t.isRepetition := by rwa [← Token.repeats_of_isKnown (hknown t (by simp))]
      have hbody : gone (i + 1) = false := h.repeated 0 t rfl hrep (by simp)
      have hsteps := fun m => ih h.tail (fun u hu => hknown u (List.mem_cons_of_mem t hu)) hbody f.repeating m
      rw [numberWithout_succ_of_kept hg] at hsteps
      have hnext : numberWithout gone (i + 2) = numberWithout gone i + 2 := by
        rw [numberWithout_succ_of_kept hbody, numberWithout_succ_of_kept hg]
      rw [Program.withoutFrom_cons_of_kept hbody, List.map_cons]
      exact step_renumber_of_repeats ht hnext hsteps m

/-- A walk through what is left ends like a walk through all. -/
theorem walk_agrees (hs : s.words.Forall Program.IsSound) (hq : s.verbosity = 0) (hknown : ∀ u ∈ ts, u.isKnown)
    (h : Spares s gone i ts) (skip : Nat) {m m' : Machine} (hm : m.Agrees m') :
    Run.Agrees id (walk s.frame i skip ts m).toRun
      (walk s.frame (numberWithout gone i) (numberWithout gone (i + skip) - numberWithout gone i)
        ((Program.withoutFrom gone i ts).map (Token.renumber (numberWithout gone))) m').toRun := by
  induction ts generalizing i skip m m' with
  | nil => exact .done hm
  | cons t ts ih =>
    have hrest := fun k {m m' : Machine} (hm : m.Agrees m') => ih (fun u hu => hknown u (by simp [hu])) h.tail k hm
    have htrace : ∀ i p m, s.frame.traceStep i p m = .done m := s.frame.traceStep_of_quiet hq
    cases hg : gone i with
    | true =>
      -- the step changes nothing, and the other walk does not take it
      rw [Program.withoutFrom_cons_of_gone hg]
      rw [numberWithout_succ_of_gone hg] at hrest
      cases skip with
      | succ skip =>
        have hskip := hrest skip hm
        rwa [Nat.add_right_comm, Nat.add_assoc] at hskip
      | zero =>
        have hstep := (h.head_isIdle hg).step_eq (f := s.frame) i ts m.tick
        have hskip := hrest 0 hm.tick
        rw [Nat.add_zero, numberWithout_succ_of_gone hg] at hskip
        rwa [walk_of_next (htrace _ _ _) hstep (Nat.lt_succ_self i), Nat.sub_self]
    | false =>
      have hnext := numberWithout_succ_of_kept hg
      have hle : ∀ {j}, i < j → numberWithout gone i + 1 ≤ numberWithout gone j := by
        intro j hj
        rw [← hnext]
        exact Nat.count_monotone _ hj
      rw [Program.withoutFrom_cons_of_kept hg, List.map_cons]
      rw [hnext] at hrest
      cases skip with
      | succ skip =>
        have hskip := hrest skip hm
        have hlt := hle (j := i + (skip + 1)) (by omega)
        have hcount : numberWithout gone (i + (skip + 1)) - numberWithout gone i =
            numberWithout gone (i + 1 + skip) - (numberWithout gone i + 1) + 1 := by
          rw [Nat.add_right_comm, Nat.add_assoc]
          omega
        rw [hcount]
        exact hskip
      | zero =>
        have hstep := h.step_eq hknown hg s.frame m'.tick
        have hagrees := step_agrees hs i t ts hm.tick.symm.tick.symm
        rw [Nat.add_zero, Nat.sub_self]
        generalize hst : step s.frame i t ts m.tick = st, hst' : step s.frame i t ts m'.tick = st' at hagrees
        rw [hst'] at hstep
        cases hagrees with
        | halt hm₁ =>
          rw [walk_of_halt (htrace _ _ _) hst, walk_of_halt (htrace _ _ _) hstep, Halt.blame_renumber, hm₁.stack_eq]
          exact .halted hm₁ rfl
        | @next j m₁ m₁' hm₁ =>
          by_cases hij : i < j
          · have hskip := hrest (j - (i + 1)) hm₁
            rw [Nat.add_sub_cancel' hij] at hskip
            rw [walk_of_next (htrace _ _ _) hst hij, walk_of_next (htrace _ _ _) hstep (hle hij)]
            exact hskip
          · have hback : numberWithout gone j ≤ numberWithout gone i := Nat.count_monotone _ (Nat.le_of_not_lt hij)
            rw [walk_of_back (htrace _ _ _) hst hij, walk_of_back (htrace _ _ _) hstep (Nat.not_lt.2 hback)]
            exact .halted hm₁ rfl

end Spares

/-! ### Programs -/

namespace Program

/-- Where a paired program has a token, the program has it too, with no target yet if it is a conditional. -/
private theorem exists_of_getElem?_pair {p : Program} {i : Nat} {t : Token} (ht : (pair p)[i]? = some t) :
    ∃ u, p[i]? = some u ∧ (t = u ∨ u.isConditional ∧ ∃ j, t = u.withTarget j) := by
  have hi : i < p.length := by
    rw [← length_pairFrom 0 p]
    exact (List.getElem?_eq_some_iff.1 ht).1
  have hu : p[i]? = some p[i] := List.getElem?_eq_getElem hi
  refine ⟨p[i], hu, ?_⟩
  rcases getElem?_pair_cases hu with h | ⟨hc, j, h⟩
  · rw [h] at ht
    exact .inl (Option.some.inj ht).symm
  · rw [h] at ht
    exact .inr ⟨hc, j, (Option.some.inj ht).symm⟩

private theorem eq_marker_of_isForward {t : Token} (ht : t.isForward) :
    ∃ target o, t = .builtin (.known .forward) target o := by
  cases t with
  | builtin ref target o =>
    rw [Token.isForward_builtin, decide_eq_true_eq] at ht
    exact ⟨target, o, by rw [ht]⟩
  | _ => cases ht

theorem IsSpare.isIdle {s : Settings} {p : Program} {i : Nat} (h : p.IsSpare s i) :
    ∃ t, p[i]? = some t ∧ t.IsIdle s := by
  cases h with
  | definition ht => exact ⟨_, ht, .definition⟩
  | word ht hs hw => exact ⟨_, ht, .word hs hw⟩
  | marker ht hf =>
    obtain ⟨target, o, rfl⟩ := eq_marker_of_isForward hf
    exact ⟨_, ht, .marker⟩

/-- No conditional is paired with a token that can be left out. -/
theorem IsSpare.partner?_ne {s : Settings} {p : Program} (hp : ∀ t ∈ p, t.isFresh) {i : Nat} (h : p.IsSpare s i)
    (k : Nat) : (pair p).partner? k ≠ some i := by
  intro hk
  have hpartner := hk
  rw [partner?_pair_iff fun t ht _ => Token.target?_of_isFresh (hp t ht)] at hk
  obtain ⟨u, hu, hf⟩ := hk.marker
  cases h with
  | definition ht =>
    obtain rfl := Option.some.inj (hu.symm.trans ht)
    cases hf
  | word ht =>
    obtain rfl := Option.some.inj (hu.symm.trans ht)
    cases hf
  | marker ht _ hp => exact hp k hpartner

theorem CanSpare.spares {s : Settings} {p : Program} (hp : ∀ t ∈ p, t.isFresh) {gone : Nat → Bool}
    (h : p.CanSpare s gone) : Spares s gone 0 (pair p) where
  isIdle k t ht hg := by
    obtain ⟨u, hu, htu⟩ := exists_of_getElem?_pair ht
    rw [Nat.zero_add] at hg
    obtain ⟨u', hu', hidle⟩ := (h.isSpare k (List.getElem?_eq_some_iff.1 hu).1 hg).isIdle
    obtain rfl := Option.some.inj (hu.symm.trans hu')
    rcases htu with rfl | ⟨hc, -⟩
    · exact hidle
    · rw [hidle.isConditional_eq_false] at hc
      cases hc
  target t ht j hj := by
    obtain ⟨k, hk⟩ := List.getElem?_of_mem ht
    obtain ⟨u, hu, htu⟩ := exists_of_getElem?_pair hk
    -- only pairing has given the token its target
    have hc : t.isConditional := by
      rcases htu with rfl | ⟨hc, l, rfl⟩
      · rw [Token.target?_of_isFresh (hp t (List.mem_of_getElem? hu))] at hj
        cases hj
      · rwa [Token.isConditional_withTarget]
    have hpartner : (pair p).partner? k = some j := partner?_eq_some_iff.2 ⟨t, hk, hc, hj⟩
    cases hg : gone j with
    | false => rfl
    | true =>
      have hlt := target?_lt_of_mem_pair hp ht hj
      rw [show (pair p).length = p.length from length_pairFrom 0 p] at hlt
      exact absurd hpartner ((h.isSpare j hlt hg).partner?_ne hp k)
  repeated k t ht hr hk := by
    obtain ⟨u, hu, htu⟩ := exists_of_getElem?_pair ht
    have hru : u.isRepetition := by
      rcases htu with rfl | ⟨-, j, rfl⟩
      · exact hr
      · rwa [Token.isRepetition_withTarget] at hr
    rw [show (pair p).length = p.length from length_pairFrom 0 p] at hk
    rw [Nat.zero_add]
    exact h.repeated k u hu hru hk

theorem mem_of_mem_withoutFrom {gone : Nat → Bool} {i : Nat} {p : Program} {t : Token}
    (h : t ∈ withoutFrom gone i p) : t ∈ p := by
  induction p generalizing i with
  | nil => cases h
  | cons u p ih =>
    cases hg : gone i with
    | true =>
      rw [withoutFrom_cons_of_gone hg] at h
      exact List.mem_cons_of_mem u (ih h)
    | false =>
      rw [withoutFrom_cons_of_kept hg] at h
      rcases List.mem_cons.1 h with rfl | h
      · exact List.mem_cons_self ..
      · exact List.mem_cons_of_mem u (ih h)

/-- What is told from the tokens alone can be left out by filtering. -/
theorem withoutFrom_eq_filter {gone : Nat → Bool} {q : Token → Bool} {i : Nat} {p : Program}
    (h : ∀ k t, p[k]? = some t → gone (i + k) = q t) : withoutFrom gone i p = p.filter fun t => !q t := by
  induction p generalizing i with
  | nil => rfl
  | cons t p ih =>
    have hhead : gone i = q t := h 0 t rfl
    have htail := ih (i := i + 1) fun k u hu => by
      rw [Nat.add_right_comm]
      exact h (k + 1) u (by simpa using hu)
    rw [withoutFrom, htail, hhead]
    cases hq : q t <;> simp [hq]

theorem CanSpare.quiet {s : Settings} {p : Program} {gone : Nat → Bool} (h : p.CanSpare s gone) :
    p.CanSpare s.quiet gone where
  isSpare i hi hg := by
    cases h.isSpare i hi hg with
    | definition ht => exact .definition ht
    | marker ht hf hp => exact .marker ht hf hp
    | word ht hs hw => exact .word ht hs hw
  repeated := h.repeated

/-- What can be left out makes no difference to a run. -/
theorem CanSpare.interpret_agrees {s : Settings} (hs : s.words.Forall IsSound) {p : Program} (hp : p.IsFresh)
    {gone : Nat → Bool} (h : p.CanSpare s gone) (m : Machine) :
    Run.Agrees id (interpret s (pair p) m) (interpret s (pair (p.without gone)) m) := by
  have hless : (p.without gone).IsFresh := fun t ht => hp t (mem_of_mem_withoutFrom ht)
  have hknown : ∀ t ∈ pair p, t.isKnown := by
    intro t ht
    obtain ⟨u, hu, e⟩ := exists_of_mem_pair Token.isKnown_withTarget ht
    rw [← e]
    exact Token.isKnown_of_isFresh (hp u hu).1
  have hspares := h.quiet.spares hp.isFresh
  have hpair : pair (p.without gone) = (withoutFrom gone 0 (pair p)).map (Token.renumber (numberWithout gone)) :=
    congrArg Prod.fst (hspares.pairFrom_eq hp.isFresh)
  -- runs that are not traced are walks
  have hwalk := hspares.walk_agrees (s := s.quiet) hs rfl hknown 0 (.refl m)
  rw [← hpair, Nat.zero_add, Nat.sub_self] at hwalk
  have hquiet : Run.Agrees id (interpret s.quiet (pair p) m) (interpret s.quiet (pair (p.without gone)) m) := by
    rw [interpret_of_quiet rfl hp.isSound_pair.1, interpret_of_quiet rfl hless.isSound_pair.1]
    exact hwalk
  have htraced := interpret_quiet_agrees hs hless.isSound_pair (.refl m)
  exact (Catena.interpret_agrees hs hp.isSound_pair (.refl m)).trans (hquiet.trans htraced)

/-- No definition stands right behind a repetition. -/
def RepeatsNoDefinition (p : Program) : Prop := p.IsChain fun t u => t.isRepetition → u.isDefinition = false

instance (p : Program) : Decidable p.RepeatsNoDefinition :=
  inferInstanceAs (Decidable (p.IsChain fun t u => t.isRepetition → u.isDefinition = false))

private theorem exists_of_isDefinition {t : Token} (ht : t.isDefinition) :
    ∃ name body o, t = .definition name body o := by
  cases t with
  | definition name body o => exact ⟨name, body, o, rfl⟩
  | _ => cases ht

theorem RepeatsNoDefinition.canSpare {p : Program} (h : p.RepeatsNoDefinition) (s : Settings) :
    p.CanSpare s fun i => p[i]?.any Token.isDefinition where
  isSpare i hi hg := by
    rw [List.getElem?_eq_getElem hi, Option.any_some] at hg
    obtain ⟨name, body, o, ht⟩ := exists_of_isDefinition hg
    exact .definition (List.getElem?_eq_some_iff.2 ⟨hi, ht⟩)
  repeated i t ht hr hi := by
    obtain ⟨_, rfl⟩ := List.getElem?_eq_some_iff.1 ht
    rw [List.getElem?_eq_getElem hi, Option.any_some]
    exact List.isChain_iff_getElem.1 h i hi hr

/-- A program runs like what it has besides its definitions. -/
private theorem interpret_filter_isDefinition {s : Settings} (hs : s.words.Forall IsSound) {p : Program}
    (hp : p.IsFresh) (h : p.RepeatsNoDefinition) (m : Machine) :
    Run.Agrees id (interpret s (pair p) m) (interpret s (pair (p.filter fun t => !t.isDefinition)) m) := by
  have hfilter : p.without (fun i => p[i]?.any Token.isDefinition) = p.filter fun t => !t.isDefinition :=
    withoutFrom_eq_filter fun k t ht => by rw [Nat.zero_add, ht, Option.any_some]
  rw [← hfilter]
  exact (h.canSpare s).interpret_agrees hs hp m

end Program

/-- What does nothing can be left out.  A program runs like the program without some of its definitions, its markers
that end no conditional and, where that is no error, its words that are not defined, if none of these stands right
behind a repetition: the runs leave the same stack, print the same and fail with the same failure, if they fail.  So
programs that only differ in their definitions, or in where these stand, run alike. -/
theorem interpret_pair_without {s : Settings} (hs : s.words.Forall Program.IsSound) :
    (∀ {p : Program}, p.IsFresh → ∀ {gone : Nat → Bool}, p.CanSpare s gone → ∀ m : Machine,
      Run.Agrees id (interpret s (Program.pair p) m) (interpret s (Program.pair (p.without gone)) m)) ∧
    ∀ {p q : Program}, p.IsFresh → q.IsFresh → p.RepeatsNoDefinition → q.RepeatsNoDefinition →
      (p.filter fun t => !t.isDefinition) = (q.filter fun t => !t.isDefinition) → ∀ m : Machine,
      Run.Agrees id (interpret s (Program.pair p) m) (interpret s (Program.pair q) m) := by
  constructor
  · intro p hp gone h m
    exact h.interpret_agrees hs hp m
  · intro p q hp hq hpd hqd e m
    have hrun := Program.interpret_filter_isDefinition hs hp hpd m
    rw [e] at hrun
    exact hrun.trans (Program.interpret_filter_isDefinition hs hq hqd m).symm

/-- Without its definitions, its first marker and the unknown word `v`, the program
`: w _ ; then 0 if v _ then 2 do w : w _ ;` runs alike, and so it does with a definition before the word instead. -/
theorem interpret_pair_without_idle :
    let known := fun b : Builtin => Token.builtin (.known b) none {}
    let number := fun x : Float => Token.data (.scalar x) {}
    let w := Token.definition "w" [known .print] {}
    let s : Settings := { words := .ofList [("w", .pair [known .print])] }
    let p : Program := [w, known .forward, number 0, known .conditional, .word "v" {}, known .print, known .forward,
      number 2, known .repetition, .word "w" {}, w]
    let q : Program := [known .forward, number 0, known .conditional, w, .word "v" {}, known .print, known .forward,
      number 2, known .repetition, .word "w" {}]
    let less := [number 0, known .conditional, known .print, known .forward, number 2, known .repetition, .word "w" {}]
    Run.Agrees id (interpret s (Program.pair p) {}) (interpret s (Program.pair less) {}) ∧
      Run.Agrees id (interpret s (Program.pair p) {}) (interpret s (Program.pair q) {}) := by
  intro known number w s p q less
  have hs : s.words.Forall Program.IsSound := by
    refine Words.forall_ofList fun e he => ?_
    obtain rfl := List.mem_singleton.1 he
    exact Program.IsFresh.isSound_pair (by decide)
  have hp : p.IsFresh := by decide
  have hmarker : ∀ k, (Program.pair p).partner? k ≠ some 1 := by
    intro k hk
    obtain ⟨t, ht, -, hj⟩ := Program.partner?_eq_some_iff.1 hk
    have hnone : ∀ t ∈ Program.pair p, t.target? ≠ some 1 := by decide
    exact hnone t (List.mem_of_getElem? ht) hj
  have hspare : p.CanSpare s (· ∈ [0, 1, 4, 10]) := by
    refine ⟨fun i _ hi => ?_, fun i t ht hr hi => ?_⟩
    · simp only [List.mem_cons, List.not_mem_nil, or_false, decide_eq_true_eq] at hi
      rcases hi with rfl | rfl | rfl | rfl
      · exact .definition rfl
      · exact .marker rfl rfl hmarker
      · exact .word rfl rfl rfl
      · exact .definition rfl
    · have hbehind : ∀ i < p.length, (p[i]?.any Token.isRepetition) → i + 1 ∉ [0, 1, 4, 10] := by decide
      simpa using hbehind i (by omega) (by rw [ht]; exact hr)
  have hq : q.IsFresh := by decide
  have hdefinitions : p.RepeatsNoDefinition ∧ q.RepeatsNoDefinition := by decide
  exact ⟨(interpret_pair_without hs).1 hp hspare {},
    (interpret_pair_without hs).2 hp hq hdefinitions.1 hdefinitions.2 rfl {}⟩

end Catena
