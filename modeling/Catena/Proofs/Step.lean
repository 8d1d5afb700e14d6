import Catena.Evaluation
import Catena.Proofs.Pairing

/-!
# The rules of a step

`Takes` states what one token does as rules, one for each way that it can go, and `Repeats` how a repetition runs the
token after it, from a greater height of frames; how calls of words end is a parameter of both.  `step` follows the
rules (`takes_step`) and nothing else does (`Takes.eq_step`), so a case split on the rules is a case split on everything
a step can do.

A step leads to the next token, behind the target of a conditional or behind the token that a repetition repeats
(`step_next_cases`), and only a repetition looks at the tokens that follow it (`step_of_not_repeats`).
-/

namespace Catena

/-- How calls of words end: at a height of frames, from a machine, in a run. -/
abbrev Calls := (height : Nat) → String → Program → Machine → Run Halt → Prop

mutual

/-- The token at an index, with the tokens that follow it, takes a machine to a step, at the given height of frames. -/
inductive Takes (s : Settings) (calls : Calls) : (height index : Nat) → Token → Program → Machine → Step → Prop
  | data {h i v o ts m} : Takes s calls h i (.data v o) ts m (.next (i + 1) (m.push v))
  | called {h i name o ts body m r} (hb : s.words.body? name = some body) (hc : calls h name body m r) :
      Takes s calls h i (.word name o) ts m (.ofRun (i + 1) r)
  | undefined {h i name o ts m} (hb : s.words.body? name = none) (hs : s.strict = true) :
      Takes s calls h i (.word name o) ts m (.halt (.raised (.undefinedWord name)) m)
  | ignored {h i name o ts m} (hb : s.words.body? name = none) (hs : s.strict = false) :
      Takes s calls h i (.word name o) ts m (.next (i + 1) m)
  | definition {h i name body o ts m} : Takes s calls h i (.definition name body o) ts m (.next (i + 1) m)
  | other {h i text ts m} : Takes s calls h i (.other text) ts m (.next (i + 1) m)
  | unknown {h i ref target o ts m} (hr : ref.resolve? = none) :
      Takes s calls h i (.builtin ref target o) ts m (.halt (.raised (.unknownBuiltin ref.name)) m)
  | print {h i ref target o ts m} (hr : ref.resolve? = some .print) :
      Takes s calls h i (.builtin ref target o) ts m (.next (i + 1) m.print)
  | forward {h i ref target o ts m} (hr : ref.resolve? = some .forward) :
      Takes s calls h i (.builtin ref target o) ts m (.next (i + 1) m)
  | branch {h i ref target o ts m} (hr : ref.resolve? = some .conditional) :
      Takes s calls h i (.builtin ref target o) ts m (branch ref target o i m)
  | operator {h i ref target o ts m op st} (hr : ref.resolve? = some (.operator op)) (ha : op.apply m.stack = .ok st) :
      Takes s calls h i (.builtin ref target o) ts m (.next (i + 1) (m.withStack st))
  | operatorFails {h i ref target o ts m op fault st} (hr : ref.resolve? = some (.operator op))
      (ha : op.apply m.stack = .error (fault, st)) :
      Takes s calls h i (.builtin ref target o) ts m (.halt (.raised fault) (m.withStack st))
  | noCount {h i ref target o ts m} (hr : ref.resolve? = some .repetition) (hm : m.stack = []) :
      Takes s calls h i (.builtin ref target o) ts m (.halt (raiseShowing .noCount ref o) m)
  | badCount {h i ref target o ts m v st fault} (hr : ref.resolve? = some .repetition) (hm : m.stack = v :: st)
      (hv : v.count = .error fault) :
      Takes s calls h i (.builtin ref target o) ts m (.halt (.raised fault) m)
  | nothingToRepeat {h i ref target o m v st n} (hr : ref.resolve? = some .repetition) (hm : m.stack = v :: st)
      (hv : v.count = .ok n) :
      Takes s calls h i (.builtin ref target o) [] m (.halt (raiseShowing .nothingToRepeat ref o) m)
  | repeatsControl {h i ref target o body rest m v st n} (hr : ref.resolve? = some .repetition)
      (hm : m.stack = v :: st) (hv : v.count = .ok n) (hb : (body.isConditional || body.isRepetition) = true) :
      Takes s calls h i (.builtin ref target o) (body :: rest) m
        (.halt (raiseShowing (.repeatsControl · body.label) ref o) m)
  | repetition {h i ref target o body rest m v st n r} (hr : ref.resolve? = some .repetition)
      (hm : m.stack = v :: st) (hv : v.count = .ok n) (hb : (body.isConditional || body.isRepetition) = false)
      (hn : Repeats s calls (h + repetitionFrames) (i + 1) body rest n.toNat (m.withStack st) r) :
      Takes s calls h i (.builtin ref target o) (body :: rest) m (.ofRun (i + 2) r)

/-- Running the token at an index by itself a number of times ends in a run. -/
inductive Repeats (s : Settings) (calls : Calls) :
    (height index : Nat) → Token → Program → (times : Nat) → Machine → Run Halt → Prop
  | zero {h i body rest m} : Repeats s calls h i body rest 0 m (.done m)
  | next {h i body rest n m j m' r} (hb : Takes s calls h i body rest m (.next j m'))
      (hn : Repeats s calls h i body rest n m' r) : Repeats s calls h i body rest (n + 1) m r
  | halt {h i body rest n m why m'} (hb : Takes s calls h i body rest m (.halt why m')) :
      Repeats s calls h i body rest (n + 1) m (.halted why m')

end

private theorem repeats_repeatStep {s : Settings} {calls : Calls} {height i : Nat} {body : Token} {rest : Program}
    {act : Machine → Step} (h : ∀ m, Takes s calls height i body rest m (act m)) (n : Nat) (m : Machine) :
    Repeats s calls height i body rest n m (repeatStep act n m) := by
  induction n generalizing m with
  | zero => exact .zero
  | succ n ih =>
    have hm := h m
    unfold repeatStep
    cases hr : act m with
    | next j m' => exact .next (hr ▸ hm) (ih m')
    | halt why m' => exact .halt (hr ▸ hm)

private theorem takes_step_of_not_repeats {f : Frame} {calls : Calls}
    (hf : ∀ height name body m, f.settings.words.body? name = some body →
      calls height name body m (f.call height name body m)) (i : Nat)
    {t : Token} (ht : t.repeats = false) (following : Program) (m : Machine) :
    Takes f.settings calls f.height i t following m (step f i t following m) := by
  cases t with
  | data value origin => simp only [step]; exact .data
  | definition name body origin => simp only [step]; exact .definition
  | other text => simp only [step]; exact .other
  | word name origin =>
    cases hb : f.settings.words.body? name with
    | some body => simp only [step, hb]; exact .called hb (hf f.height name body m hb)
    | none =>
      cases hs : f.settings.strict with
      | true => simp only [step, hb, hs]; exact .undefined hb hs
      | false => simp only [step, hb, hs]; exact .ignored hb hs
  | builtin ref target origin =>
    cases hr : ref.resolve? with
    | none => simp only [step, hr]; exact .unknown hr
    | some b =>
      cases b with
      | print => simp only [step, hr]; exact .print hr
      | forward => simp only [step, hr]; exact .forward hr
      | conditional => simp only [step, hr]; exact .branch hr
      | repetition => simp [Token.repeats, hr] at ht
      | operator op =>
        cases ha : op.apply m.stack with
        | ok st => simp only [step, hr, ha]; exact .operator hr ha
        | error e => simp only [step, hr, ha]; exact .operatorFails hr ha

/-- `step` follows the rules, if the frame calls words as the rules say. -/
theorem takes_step {f : Frame} {calls : Calls}
    (hf : ∀ height name body m, f.settings.words.body? name = some body →
      calls height name body m (f.call height name body m)) (i : Nat) (t : Token) (following : Program) (m : Machine) :
    Takes f.settings calls f.height i t following m (step f i t following m) := by
  -- the recursion of `step` is on the tokens that follow, at a greater height
  induction following generalizing f i t m with
  | nil =>
    cases ht : t.repeats with
    | false => exact takes_step_of_not_repeats hf i ht [] m
    | true =>
      obtain ⟨ref, target, origin, rfl, hr⟩ := Token.eq_builtin_of_repeats ht
      cases hm : m.stack with
      | nil => simp only [step, hr, hm]; exact .noCount hr hm
      | cons v st =>
        cases hv : v.count with
        | error fault => simp only [step, hr, hm, hv]; exact .badCount hr hm hv
        | ok n => simp only [step, hr, hm, hv]; exact .nothingToRepeat hr hm hv
  | cons body rest ih =>
    cases ht : t.repeats with
    | false => exact takes_step_of_not_repeats hf i ht (body :: rest) m
    | true =>
      obtain ⟨ref, target, origin, rfl, hr⟩ := Token.eq_builtin_of_repeats ht
      cases hm : m.stack with
      | nil => simp only [step, hr, hm]; exact .noCount hr hm
      | cons v st =>
        cases hv : v.count with
        | error fault => simp only [step, hr, hm, hv]; exact .badCount hr hm hv
        | ok n =>
          cases hb : body.isConditional || body.isRepetition with
          | true => simp only [step, hr, hm, hv, hb]; exact .repeatsControl hr hm hv hb
          | false =>
            simp only [step, hr, hm, hv, hb]
            exact .repetition hr hm hv hb (repeats_repeatStep (ih (f := f.repeating) hf (i + 1) body) n.toNat _)

private theorem Repeats.eq_repeatStep {s : Settings} {calls : Calls} {height i : Nat} {body : Token} {rest : Program}
    {act : Machine → Step} (h : ∀ m r, Takes s calls height i body rest m r → r = act m) {n : Nat} {m : Machine}
    {r : Run Halt} (hr : Repeats s calls height i body rest n m r) : r = repeatStep act n m := by
  induction n generalizing m r with
  | zero => cases hr with | zero => rfl
  | succ n ih =>
    cases hr with
    | next hb hn => simp only [repeatStep, ← h _ _ hb]; exact ih hn
    | halt hb => simp only [repeatStep, ← h _ _ hb]

/-- The rules leave no choice: a frame whose calls end as the rules say takes the same step. -/
theorem Takes.eq_step {f : Frame} {calls : Calls}
    (hf : ∀ height name body m r, f.settings.words.body? name = some body → calls height name body m r →
      r = f.call height name body m)
    {i : Nat} {t : Token} {following : Program} {m : Machine} {r : Step}
    (h : Takes f.settings calls f.height i t following m r) : r = step f i t following m := by
  induction following generalizing f i t m r with
  | nil =>
    cases h with
    | called hb hc => simp only [step, hb, hf _ _ _ _ _ hb hc]
    | _ => simp [step, *]
  | cons body rest ih =>
    cases h with
    | called hb hc => simp only [step, hb, hf _ _ _ _ _ hb hc]
    | repetition hr hm hv hb hn =>
      rw [hn.eq_repeatStep fun m r h => ih (f := f.repeating) hf h]
      simp [step, hr, hm, hv, hb]
    | _ => simp [step, *]

/-- Only a repetition looks at the tokens that follow it. -/
theorem step_of_not_repeats (f : Frame) (i : Nat) {t : Token} (ht : t.repeats = false)
    (following following' : Program) (m : Machine) : step f i t following m = step f i t following' m := by
  cases t with
  | builtin ref target origin =>
    cases hr : ref.resolve? with
    | none => simp only [step, hr]
    | some b =>
      cases b with
      | repetition => simp [Token.repeats, hr] at ht
      | _ => simp only [step, hr]
  | _ => simp only [step]

private theorem branch_next_cases {ref : Reference} {target : Option Nat} {origin : Origin} {i j : Nat}
    {m m' : Machine} (h : branch ref target origin i m = .next j m') :
    j = i + 1 ∨ ∃ l, target = some l ∧ j = l + 1 := by
  unfold branch at h
  split at h
  · cases h
  · rename_i v st _
    cases hv : v.holds with
    | true => left; simp_all
    | false =>
      cases target with
      | none => simp [hv] at h
      | some l => right; simp_all

private theorem Step.ofRun_eq_next {i j : Nat} {r : Run Halt} {m : Machine} (h : Step.ofRun i r = .next j m) :
    j = i := by
  cases r with
  | done m' => cases h; rfl
  | halted why m' => cases h

/-- A step leads to the next token, behind the token that a repetition repeats, or behind the target of a
conditional. -/
theorem step_next_cases {f : Frame} {i j : Nat} {t : Token} {following : Program} {m m' : Machine}
    (h : step f i t following m = .next j m') :
    j = i + 1 ∨ (t.repeats ∧ following ≠ [] ∧ j = i + 2) ∨ (t.branches ∧ ∃ l, t.target? = some l ∧ j = l + 1) := by
  have ht : Takes f.settings (fun height name body m r => f.call height name body m = r) f.height i t following m
      (.next j m') :=
    h ▸ takes_step (fun _ _ _ _ _ => rfl) i t following m
  generalize hs : Step.next j m' = s at ht
  cases ht with
  | data | ignored | definition | other | print | forward | operator => left; cases hs; rfl
  | called hb hc => left; exact Step.ofRun_eq_next hs.symm
  | undefined | unknown | operatorFails | noCount | badCount | nothingToRepeat | repeatsControl => cases hs
  | branch hr =>
    rcases branch_next_cases hs.symm with h | ⟨l, hl, h⟩
    · left; exact h
    · right; right; exact ⟨by simp [Token.branches, hr], l, hl, h⟩
  | repetition hr hm hv hb hn =>
    right; left
    exact ⟨by simp [Token.repeats, hr], by simp, Step.ofRun_eq_next hs.symm⟩

/-! ### Walks, one step at a time -/

section Walks

variable {f : Frame} {i : Nat} {t : Token} {ts : Program} {m m₀ : Machine}

theorem Frame.traceStep_of_quiet (hf : f.settings.verbosity = 0) (i : Nat) (program : Program) (m : Machine) :
    f.traceStep i program m = .done m := by
  simp [Frame.traceStep, hf]

theorem walk_of_next {j : Nat} {m' : Machine} (ht : f.traceStep i (t :: ts) m = .done m₀)
    (hs : step f i t ts m₀.tick = .next j m') (hj : i < j) :
    walk f i 0 (t :: ts) m = walk f (i + 1) (j - (i + 1)) ts m' := by
  simp [walk, ht, hs, hj]

theorem walk_of_back {j : Nat} {m' : Machine} (ht : f.traceStep i (t :: ts) m = .done m₀)
    (hs : step f i t ts m₀.tick = .next j m') (hj : ¬ i < j) : walk f i 0 (t :: ts) m = .back j m' := by
  simp [walk, ht, hs, hj]

theorem walk_of_halt {why : Halt} {m' : Machine} (ht : f.traceStep i (t :: ts) m = .done m₀)
    (hs : step f i t ts m₀.tick = .halt why m') :
    walk f i 0 (t :: ts) m = .failed (why.blame t m'.stack) m' := by
  simp [walk, ht, hs]

theorem walk_of_untraced {why : Failure} {m' : Machine} (ht : f.traceStep i (t :: ts) m = .halted why m') :
    walk f i 0 (t :: ts) m = .failed why m' := by
  simp [walk, ht]

end Walks

end Catena
