import Catena.Proofs.Safety

/-!
# What an error is blamed on

When a fault is raised, several programs may be running: the one that was started and, one within the other, the bodies
of the words that have been called and are not done.  `Raises` follows a run up to that point and tells these programs,
each with the index of the token that it is at.  The error is blamed on the token that the innermost of them is at,
together with the stack as the fault leaves it, and goes out through the callers unchanged (`interpret_halted_iff`).

A run that its host fails is the only one that is not blamed on a token.
-/

namespace Catena

/-- A program that is running, and the index of the token that it is at. -/
structure Activation where
  program : Program
  index : Nat

/-- A token that is taken on a machine comes to call a word, at a height of frames and on a machine `m'`.  A repetition
calls what it repeats, perhaps after it has done so a few times. -/
inductive Enters : Frame → (index : Nat) → Token → Program → Machine → (height : Nat) → (name : String) →
    (body : Program) → Machine → Prop
  | word {f i name o ts body m} (hb : f.settings.words.body? name = some body) :
      Enters f i (.word name o) ts m f.height name body m
  | repetition {f i ref target o t ts m v st n k m₁ height name body m'} (hr : ref.resolve? = some .repetition)
      (hm : m.stack = v :: st) (hv : v.count = .ok n) (ht : (t.isConditional || t.isRepetition) = false)
      (hk : k < n.toNat) (hdone : repeatStep (step f.repeating (i + 1) t ts) k (m.withStack st) = .done m₁)
      (he : Enters f.repeating (i + 1) t ts m₁ height name body m') :
      Enters f i (.builtin ref target o) (t :: ts) m height name body m'

/-- A program that runs at the given depth and height from an index on comes to raise a fault.  The innermost program
that is then running has been called by the others, which are given from the outermost on. -/
inductive Raises (s : Settings) : (depth height : Nat) → Program → (index : Nat) → Machine →
    (callers : List Activation) → (innermost : Activation) → Fault → Machine → Prop
  | here {depth height p i m t m₀ cause m'} (ht : p[i]? = some t)
      (htr : (s.frameAt depth height).traceStep i (p.drop i) m = .done m₀)
      (hs : step (s.frameAt depth height) i t (p.drop (i + 1)) m₀.tick = .halt (.raised cause) m') :
      Raises s depth height p i m [] ⟨p, i⟩ cause m'
  | inside {depth height p i m t m₀ k name body m₁ m₂ callers a cause m'} (ht : p[i]? = some t)
      (htr : (s.frameAt depth height).traceStep i (p.drop i) m = .done m₀)
      (he : Enters (s.frameAt depth height) i t (p.drop (i + 1)) m₀.tick k name body m₁) (hd : depth < s.maxDepth)
      (hroom : s.hasRoom k = true) (hc : s.traceCall depth name body m₁ = .done m₂)
      (h : Raises s (depth + 1) (k + callFrames) body 0 m₂ callers a cause m') :
      Raises s depth height p i m (⟨p, i⟩ :: callers) a cause m'
  | next {depth height p i m t m₀ j m₁ callers a cause m'} (ht : p[i]? = some t)
      (htr : (s.frameAt depth height).traceStep i (p.drop i) m = .done m₀)
      (hs : step (s.frameAt depth height) i t (p.drop (i + 1)) m₀.tick = .next j m₁)
      (h : Raises s depth height p j m₁ callers a cause m') : Raises s depth height p i m callers a cause m'

/-! ### Calls within a step -/

/-- A repetition halts where the token that it repeats first does. -/
theorem repeatStep_eq_halted_iff {act : Machine → Step} {n : Nat} {m m' : Machine} {why : Halt} :
    repeatStep act n m = .halted why m' ↔
      ∃ k m₁, k < n ∧ repeatStep act k m = .done m₁ ∧ act m₁ = .halt why m' := by
  induction n generalizing m with
  | zero => simp [repeatStep]
  | succ n ih =>
    rw [repeatStep]
    cases ha : act m with
    | halt why₁ m₂ =>
      constructor
      · intro h
        cases h
        exact ⟨0, m, by omega, rfl, ha⟩
      · rintro ⟨k, m₁, -, hdone, hhalt⟩
        cases k with
        | zero =>
          cases hdone
          rw [ha] at hhalt
          cases hhalt
          rfl
        | succ k => simp [repeatStep, ha] at hdone
    | next j m₂ =>
      dsimp only
      rw [ih]
      constructor
      · rintro ⟨k, m₁, hk, hdone, hhalt⟩
        exact ⟨k + 1, m₁, by omega, by simpa [repeatStep, ha] using hdone, hhalt⟩
      · rintro ⟨k, m₁, hk, hdone, hhalt⟩
        cases k with
        | zero =>
          cases hdone
          rw [ha] at hhalt
          cases hhalt
        | succ k => exact ⟨k, m₁, by omega, by simpa [repeatStep, ha] using hdone, hhalt⟩

/-- A call that halts halts the step that it belongs to. -/
theorem Enters.step_eq {f : Frame} {i : Nat} {t : Token} {ts : Program} {m m₁ m' : Machine} {k : Nat} {name : String}
    {body : Program} {why : Halt} (he : Enters f i t ts m k name body m₁)
    (hc : f.call k name body m₁ = .halted why m') : step f i t ts m = .halt why m' := by
  induction he with
  | word hb => simp only [step, hb, hc, Step.ofRun]
  | repetition hr hm hv ht hk hdone _ ih =>
    have hrep := repeatStep_eq_halted_iff.2 ⟨_, _, hk, hdone, ih hc⟩
    simp only [step, hr, hm, hv, ht, Bool.false_eq_true, ↓reduceIte, hrep, Step.ofRun]

/-- A step that passes a failure on calls a word, or repeats the token after it. -/
private theorem step_passed_cases {f : Frame} {i : Nat} {t : Token} {ts : Program} (ht : t.textless? = none)
    {m m' : Machine} {why : Failure} (h : step f i t ts m = .halt (.passed why) m') :
    (∃ name origin body, t = .word name origin ∧ f.settings.words.body? name = some body ∧
      f.call f.height name body m = .halted (.passed why) m') ∨
    ∃ ref target origin u us v st n, t = .builtin ref target origin ∧ ts = u :: us ∧
      ref.resolve? = some .repetition ∧ m.stack = v :: st ∧ v.count = .ok n ∧
      (u.isConditional || u.isRepetition) = false ∧
      repeatStep (step f.repeating (i + 1) u us) n.toNat (m.withStack st) = .halted (.passed why) m' := by
  have hself : ¬ t.Hides why := by
    rintro ⟨name, hn, -⟩
    rw [ht] at hn
    cases hn
  have htake : Takes f.settings (fun k name body m r => f.call k name body m = r) f.height i t ts m
      (.halt (.passed why) m') := h ▸ takes_step (fun _ _ _ _ _ => rfl) i t ts m
  generalize hr : Step.halt (.passed why) m' = r at htake
  cases htake with
  | called hb hc => exact .inl ⟨_, _, _, rfl, hb, hc.trans (Step.ofRun_eq_halt hr.symm)⟩
  | branch => exact absurd (branch_passed hr.symm) hself
  | noCount | nothingToRepeat | repeatsControl => exact absurd (raiseShowing_passed (Step.halt.inj hr).1.symm) hself
  | repetition href hm hv hb =>
    simp only [step, href, hm, hv, hb, Bool.false_eq_true, ↓reduceIte] at h
    exact .inr ⟨_, _, _, _, _, _, _, _, rfl, rfl, href, hm, hv, hb, Step.ofRun_eq_halt h⟩
  | _ => cases hr

/-- A failure that a step passes on is that of a call, if all tokens have a text. -/
private theorem exists_enters {f : Frame} {i : Nat} {t : Token} {ts : Program} (hts : ∀ u ∈ t :: ts, u.textless? = none)
    {m m' : Machine} {why : Failure} (h : step f i t ts m = .halt (.passed why) m') :
    ∃ k name body m₁, f.settings.words.body? name = some body ∧ Enters f i t ts m k name body m₁ ∧
      f.call k name body m₁ = .halted (.passed why) m' := by
  -- a repetition passes on what the token after it does, with fewer tokens to follow
  induction ts generalizing f i t m with
  | nil =>
    rcases step_passed_cases (hts t (by simp)) h with
      ⟨name, origin, body, rfl, hb, hc⟩ | ⟨_, _, _, _, _, _, _, _, _, hnil, _⟩
    · exact ⟨_, name, body, m, hb, .word hb, hc⟩
    · cases hnil
  | cons u us ih =>
    rcases step_passed_cases (hts t (by simp)) h with
      ⟨name, origin, body, rfl, hb, hc⟩ | ⟨ref, target, origin, _, _, v, st, n, rfl, hcons, hr, hm, hv, ht, hrep⟩
    · exact ⟨_, name, body, m, hb, .word hb, hc⟩
    · obtain ⟨rfl, rfl⟩ := List.cons.inj hcons
      obtain ⟨k, m₁, hk, hdone, hhalt⟩ := repeatStep_eq_halted_iff.1 hrep
      obtain ⟨height, name, body, m₂, hb, he, hc⟩ := ih (fun w hw => hts w (List.mem_cons_of_mem _ hw)) hhalt
      exact ⟨height, name, body, m₂, hb, .repetition hr hm hv ht hk hdone he, hc⟩

/-! ### From a run to the token -/

/-- The failure of a fault that is raised while a program is at a token. -/
def Activation.Blames (a : Activation) (cause : Fault) (left : Stack) (why : Failure) : Prop :=
  ∃ t, a.program[a.index]? = some t ∧
    why = .fault cause ⟨(cause.culprit?.filter (· ≠ "")).getD t.label, t.origin, left⟩

private theorem Halt.blame_raised {t : Token} (ht : t.unspelled? = none) (cause : Fault) (left : Stack) :
    (Halt.raised cause).blame t left =
      .fault cause ⟨(cause.culprit?.filter (· ≠ "")).getD t.label, t.origin, left⟩ := by
  simp only [Halt.blame, ht]
  cases cause.culprit?.filter (· ≠ "") <;> rfl

private theorem Machine.exists_trace {p : Program} (hp : Program.textless? p = none) (m : Machine) (depth : Nat)
    (label : List Char) : ∃ m', m.trace depth label p = .done m' := by
  unfold Machine.trace
  rw [hp]
  exact ⟨_, rfl⟩

private theorem exists_traceStep {p : Program} (hp : p.IsSound) (f : Frame) (i : Nat) (m : Machine) :
    ∃ m', f.traceStep i (p.drop i) m = .done m' := by
  unfold Frame.traceStep
  split
  · refine Machine.exists_trace (Program.textless?_eq_none_iff.2 fun t ht => ?_) m _ _
    exact Program.textless?_eq_none_iff.1 hp.2 t (List.mem_of_mem_drop ht)
  · exact ⟨m, rfl⟩

private theorem exists_traceCall {body : Program} (hb : body.IsSound) (s : Settings) (depth : Nat) (name : String)
    (m : Machine) : ∃ m', s.traceCall depth name body m = .done m' := by
  unfold Settings.traceCall
  split
  · exact Machine.exists_trace hb.2 m _ _
  · exact ⟨m, rfl⟩

section

variable {s : Settings}

/-- Failures that are passed on by calls at a depth are blamed on the tokens that raised the faults, but for those of
the host. -/
def Settings.BlamesWithin (s : Settings) (depth : Nat) : Prop :=
  ∀ height k name body m why m', s.words.body? name = some body → why ≠ .overflowed →
    (s.frameAt depth height).call k name body m = .halted (.passed why) m' →
    ∃ m₁ callers a cause, depth < s.maxDepth ∧ s.hasRoom k = true ∧ s.traceCall depth name body m = .done m₁ ∧
      Raises s (depth + 1) (k + callFrames) body 0 m₁ callers a cause m' ∧ a.Blames cause m'.stack why

private theorem Runs.exists_raises {depth height : Nat} (hcall : s.BlamesWithin depth) {p : Program} (hp : p.IsSound)
    {i : Nat} {m m' : Machine} {why : Failure} (hwhy : why ≠ .overflowed)
    (h : Runs s (fun k name body m r => (s.frameAt depth height).call k name body m = r) depth height p i m
      (.halted why m')) :
    ∃ callers a cause, Raises s depth height p i m callers a cause m' ∧ a.Blames cause m'.stack why := by
  generalize hr : Run.halted why m' = r at h
  induction h with
  | ended => cases hr
  | @untraced i m t why₁ m₁ ht htr =>
    obtain ⟨m₂, hdone⟩ := exists_traceStep hp (s.frameAt depth height) i m
    rw [hdone] at htr
    cases htr
  | @failed i m t m₀ halt m₁ ht htr hs =>
    cases hr
    have hstep := Takes.eq_step (f := s.frameAt depth height) (fun _ _ _ _ _ _ hc => hc.symm) hs
    cases halt with
    | raised cause =>
      have htext := hp.unspelled?_eq_none (List.mem_of_getElem? ht)
      exact ⟨[], ⟨p, i⟩, cause, .here ht htr hstep.symm, t, ht, Halt.blame_raised htext cause _⟩
    | passed failure =>
      -- the token has called a word, and the failure is that of the call
      have hts : ∀ u ∈ t :: p.drop (i + 1), u.textless? = none := by
        intro u hu
        rw [← drop_eq_cons ht] at hu
        exact Program.textless?_eq_none_iff.1 hp.2 u (List.mem_of_mem_drop hu)
      obtain ⟨k, name, body, m₂, hname, he, hc⟩ := exists_enters hts hstep.symm
      obtain ⟨m₃, callers, a, cause, hd, hroom, htc, hraise, hblame⟩ :=
        hcall height k name body m₂ failure m' hname hwhy hc
      exact ⟨⟨p, i⟩ :: callers, a, cause, .inside ht htr he hd hroom htc hraise, hblame⟩
  | next ht htr hs _ ih =>
    have hstep := Takes.eq_step (f := s.frameAt depth height) (fun _ _ _ _ _ _ hc => hc.symm) hs
    obtain ⟨callers, a, cause, hraise, hblame⟩ := ih hr
    exact ⟨callers, a, cause, .next ht htr hstep.symm hraise, hblame⟩

theorem exists_raises_of_run {depth height : Nat} (hcall : s.BlamesWithin depth) {p : Program} (hp : p.IsSound)
    {m m' : Machine} {why : Failure} (hwhy : why ≠ .overflowed)
    (h : (s.frameAt depth height).run p m = .halted why m') :
    ∃ callers a cause, Raises s depth height p 0 m callers a cause m' ∧ a.Blames cause m'.stack why := by
  have hruns : Runs s (fun k name body m r => (s.frameAt depth height).call k name body m = r) depth height p 0 m
      (walk (s.frameAt depth height) 0 0 (p.drop 0) m).toRun := hp.1.runs_walk (fun _ _ _ _ _ => rfl) 0 m
  rw [List.drop_zero, ← hp.1.run_eq, h] at hruns
  exact hruns.exists_raises hcall hp hwhy

theorem Settings.blamesWithin (hw : s.words.Forall Program.IsSound) (depth : Nat) : s.BlamesWithin depth := by
  -- each call leaves less room below the limit
  induction hn : s.maxDepth.toNat - depth using Nat.strongRecOn generalizing depth with
  | ind n ih =>
    intro height k name body m why m' hb hwhy h
    obtain ⟨m₁, htc⟩ := exists_traceCall (hw.body? hb) s depth name m
    rcases frameAt_call_halted_cases h with ⟨-, hover⟩ | ⟨-, -, hraised⟩ | ⟨_, -, htr⟩ |
      ⟨hroom, hlt, _, m₂, hpassed, htr, hrun⟩
    · exact absurd (Halt.passed.inj hover) hwhy
    · cases hraised
    · cases htc.symm.trans htr
    · obtain rfl := Halt.passed.inj hpassed
      obtain ⟨callers, a, cause, hraise, hblame⟩ :=
        exists_raises_of_run (ih _ (by omega) (depth + 1) rfl) (hw.body? hb) hwhy hrun
      exact ⟨m₂, callers, a, cause, hlt, hroom, htr, hraise, hblame⟩

/-! ### From the token to the run -/

theorem Enters.body?_eq {f : Frame} {i : Nat} {t : Token} {ts : Program} {m m' : Machine} {k : Nat} {name : String}
    {body : Program} (he : Enters f i t ts m k name body m') : f.settings.words.body? name = some body := by
  induction he with
  | word hb => exact hb
  | repetition _ _ _ _ _ _ _ ih => exact ih

/-- The innermost program is the one that was started, or else the body of the word that was called last. -/
theorem Raises.innermost {depth height : Nat} {p : Program} {i : Nat} {m m' : Machine} {callers : List Activation}
    {a : Activation} {cause : Fault} (h : Raises s depth height p i m callers a cause m') :
    callers = [] ∧ a.program = p ∨ callers ≠ [] ∧ ∃ name, s.words.body? name = some a.program := by
  induction h with
  | here => exact .inl ⟨rfl, rfl⟩
  | inside _ _ he _ _ _ _ ih =>
    refine .inr ⟨by simp, ?_⟩
    rcases ih with ⟨-, e⟩ | ⟨-, hname⟩
    · exact ⟨_, e ▸ he.body?_eq⟩
    · exact hname
  | next _ _ _ _ ih => exact ih

end

end Catena
