import Catena.Proofs.Progress

/-!
# The rules of a run

`Runs` states how a program runs as rules over the index of the token that is next, and `Called` how a call of a word
ends when calls nest at most so deep.  A derivation by these rules is finite, so that to have one is to end.
A program that jumps ahead, with words that do, has exactly one run by the rules, with calls nested no deeper than the
limit, and it is the one that its frame computes (`Program.JumpsAhead.runs_iff`).
-/

namespace Catena

/-- What a call makes of the run of a body: a failure is passed on. -/
def Run.passed : Run Failure → Run Halt
  | .done m => .done m
  | .halted why m => .halted (.passed why) m

/-- The frame of a program at the given depth of calls, with so many frames of the host taken up. -/
def Settings.frameAt (s : Settings) (depth height : Nat) : Frame :=
  ⟨s, depth, height, callWord s (s.maxDepth.toNat - depth) depth⟩

/-- Running a program at the given depth and height from an index on ends in a run. -/
inductive Runs (s : Settings) (calls : Calls) (depth height : Nat) (p : Program) :
    (index : Nat) → Machine → Run Failure → Prop
  | ended {i m} (hi : p.length ≤ i) : Runs s calls depth height p i m (.done m)
  | untraced {i m t why m'} (ht : p[i]? = some t)
      (htr : (s.frameAt depth height).traceStep i (p.drop i) m = .halted why m') :
      Runs s calls depth height p i m (.halted why m')
  | failed {i m t m₀ why m'} (ht : p[i]? = some t)
      (htr : (s.frameAt depth height).traceStep i (p.drop i) m = .done m₀)
      (hs : Takes s calls height i t (p.drop (i + 1)) m₀.tick (.halt why m')) :
      Runs s calls depth height p i m (.halted (why.blame t m'.stack) m')
  | next {i m t m₀ j m' r} (ht : p[i]? = some t)
      (htr : (s.frameAt depth height).traceStep i (p.drop i) m = .done m₀)
      (hs : Takes s calls height i t (p.drop (i + 1)) m₀.tick (.next j m')) (hr : Runs s calls depth height p j m' r) :
      Runs s calls depth height p i m r

/-- The call of a word from a program at the given depth ends in a run, with calls nested at most `nesting` deep.  It
fails for want of room in the host, at the limit on the depth or as its body does. -/
def Called (s : Settings) : (nesting depth : Nat) → Calls
  | 0, depth, height, name, _, m, r =>
    if s.hasRoom height then s.maxDepth ≤ depth ∧ r = .halted (.raised (.tooDeep name s.maxDepth)) m
    else r = .halted (.passed .overflowed) m
  | nesting + 1, depth, height, name, body, m, r =>
    if s.hasRoom height then
      if s.maxDepth ≤ depth then r = .halted (.raised (.tooDeep name s.maxDepth)) m
      else match s.traceCall depth name body m with
        | .halted why m' => r = .halted (.passed why) m'
        | .done m' =>
          ∃ r', Runs s (Called s nesting (depth + 1)) (depth + 1) (height + callFrames) body 0 m' r' ∧ r = r'.passed
    else r = .halted (.passed .overflowed) m

theorem called_iff_of_full {s : Settings} {nesting depth k : Nat} {name : String} {body : Program} {m : Machine}
    {r : Run Halt} (hk : s.hasRoom k = false) :
    Called s nesting depth k name body m r ↔ r = .halted (.passed .overflowed) m := by
  unfold Called
  cases nesting <;> simp [hk]

/-- Passing over tokens is walking from where they end. -/
theorem walk_skip (f : Frame) (i skip : Nat) (ts : Program) (m : Machine) :
    walk f i skip ts m = walk f (i + skip) 0 (ts.drop skip) m := by
  induction ts generalizing i skip with
  | nil => simp [walk]
  | cons t ts ih =>
    cases skip with
    | zero => rfl
    | succ skip =>
      simp only [walk, List.drop_succ_cons]
      rw [ih (i + 1) skip]
      congr 1
      omega

theorem drop_eq_cons {p : Program} {i : Nat} {t : Token} (ht : p[i]? = some t) :
    p.drop i = t :: p.drop (i + 1) := by
  obtain ⟨hi, rfl⟩ := List.getElem?_eq_some_iff.1 ht
  exact List.drop_eq_getElem_cons hi

/-- Going on at an index ahead is walking on from there. -/
theorem walk_of_next_drop {f : Frame} {p : Program} {i j : Nat} {t : Token} {m m₀ m' : Machine}
    (ht : p[i]? = some t) (htr : f.traceStep i (p.drop i) m = .done m₀)
    (hs : step f i t (p.drop (i + 1)) m₀.tick = .next j m') (hj : i < j) :
    walk f i 0 (p.drop i) m = walk f j 0 (p.drop j) m' := by
  rw [drop_eq_cons ht] at htr ⊢
  have hij : i + 1 + (j - (i + 1)) = j := by omega
  rw [walk_of_next htr hs hj, walk_skip, List.drop_drop, hij]

section Runs

variable {s : Settings} {calls : Calls} {depth height : Nat} {p : Program}

/-- A walk through a program that jumps ahead follows the rules. -/
theorem Program.JumpsAhead.runs_walk (hp : p.JumpsAhead)
    (hc : ∀ k name body m, s.words.body? name = some body →
      calls k name body m ((s.frameAt depth height).call k name body m)) (i : Nat) (m : Machine) :
    Runs s calls depth height p i m (walk (s.frameAt depth height) i 0 (p.drop i) m).toRun := by
  -- the rest of the program gets shorter with every step
  induction hn : p.length - i using Nat.strongRecOn generalizing i m with
  | ind n ih =>
    cases ht : p[i]? with
    | none =>
      have hi := List.getElem?_eq_none_iff.1 ht
      rw [List.drop_eq_nil_of_le hi]
      exact .ended hi
    | some t =>
      obtain ⟨hi, -⟩ := List.getElem?_eq_some_iff.1 ht
      cases htr : (s.frameAt depth height).traceStep i (p.drop i) m with
      | halted why m' =>
        have hrun : Runs s calls depth height p i m (.halted why m') := .untraced ht htr
        rw [drop_eq_cons ht] at htr ⊢
        rw [walk_of_untraced htr]
        exact hrun
      | done m₀ =>
        have hs := takes_step (f := s.frameAt depth height) hc i t (p.drop (i + 1)) m₀.tick
        cases hstep : step (s.frameAt depth height) i t (p.drop (i + 1)) m₀.tick with
        | halt why m' =>
          rw [hstep] at hs
          have hrun : Runs s calls depth height p i m (.halted (why.blame t m'.stack) m') := .failed ht htr hs
          rw [drop_eq_cons ht] at htr ⊢
          rw [walk_of_halt htr hstep]
          exact hrun
        | next j m' =>
          rw [hstep] at hs
          obtain ⟨hij, hjl⟩ := hp.step_bounds ht hstep
          rw [walk_of_next_drop ht htr hstep hij]
          exact .next ht htr hs (ih (p.length - j) (by omega) j m' rfl)

/-- A run by the rules of a program that jumps ahead is a walk. -/
theorem Runs.eq_walk {i : Nat} {m : Machine} {r : Run Failure} (h : Runs s calls depth height p i m r)
    (hp : p.JumpsAhead)
    (hc : ∀ k name body m r, s.words.body? name = some body → calls k name body m r →
      r = (s.frameAt depth height).call k name body m) :
    r = (walk (s.frameAt depth height) i 0 (p.drop i) m).toRun := by
  induction h with
  | ended hi =>
    rw [List.drop_eq_nil_of_le hi]
    rfl
  | untraced ht htr =>
    rw [drop_eq_cons ht] at htr ⊢
    rw [walk_of_untraced htr]
    rfl
  | failed ht htr hs =>
    have hstep := Takes.eq_step (f := s.frameAt depth height) hc hs
    rw [drop_eq_cons ht] at htr ⊢
    rw [walk_of_halt htr hstep.symm]
    rfl
  | next ht htr hs hr ih =>
    have hstep := Takes.eq_step (f := s.frameAt depth height) hc hs
    rw [ih, walk_of_next_drop ht htr hstep.symm (hp.step_bounds ht hstep.symm).1]

end Runs

section FrameAt

variable {s : Settings} {depth height k : Nat}

/-- A frame refuses a call that the host has no room for, at any depth. -/
theorem Settings.frameAt_call_of_full (h : s.hasRoom k = false) (name : String) (body : Program) (m : Machine) :
    (s.frameAt depth height).call k name body m = .halted (.passed .overflowed) m := by
  simp only [Settings.frameAt]
  cases s.maxDepth.toNat - depth <;> simp [callWord, h]

variable (hk : s.hasRoom k = true)

include hk

/-- A frame refuses a call at the limit. -/
theorem Settings.frameAt_call_of_le (h : s.maxDepth ≤ depth) (name : String) (body : Program) (m : Machine) :
    (s.frameAt depth height).call k name body m = .halted (.raised (.tooDeep name s.maxDepth)) m := by
  have hroom : s.maxDepth.toNat - depth = 0 := by omega
  simp [Settings.frameAt, hroom, callWord, hk]

theorem Settings.frameAt_call_of_untraced (h : ¬ s.maxDepth ≤ depth) {name : String} {body : Program}
    {m m' : Machine} {why : Failure} (ht : s.traceCall depth name body m = .halted why m') :
    (s.frameAt depth height).call k name body m = .halted (.passed why) m' := by
  have hroom : s.maxDepth.toNat - depth = s.maxDepth.toNat - (depth + 1) + 1 := by omega
  simp [Settings.frameAt, hroom, callWord, hk, ht]

/-- A frame below the limit runs the body of a word in the frame one deeper. -/
theorem Settings.frameAt_call_of_traced (h : ¬ s.maxDepth ≤ depth) {name : String} {body : Program} {m m' : Machine}
    (ht : s.traceCall depth name body m = .done m') :
    (s.frameAt depth height).call k name body m = ((s.frameAt (depth + 1) (k + callFrames)).run body m').passed := by
  have hroom : s.maxDepth.toNat - depth = s.maxDepth.toNat - (depth + 1) + 1 := by omega
  simp only [Settings.frameAt, hroom, callWord, hk, ht, ↓reduceIte]
  cases Frame.run ⟨s, depth + 1, k + callFrames, callWord s (s.maxDepth.toNat - (depth + 1)) (depth + 1)⟩ body m' <;>
    rfl

end FrameAt

private theorem Run.eq_of_passed {r : Run Failure} {why : Halt} {m : Machine} (h : r.passed = .halted why m) :
    ∃ failure, why = .passed failure ∧ r = .halted failure m := by
  cases r with
  | done m' => cases h
  | halted failure m' =>
    cases h
    exact ⟨failure, rfl, rfl⟩

/-- A call halts because the host has no room for it, because it is at the limit, because it cannot be traced, or
because the body of the word halts. -/
theorem Settings.frameAt_call_halted_cases {s : Settings} {depth height k : Nat} {name : String} {body : Program}
    {m m' : Machine} {why : Halt} (h : (s.frameAt depth height).call k name body m = .halted why m') :
    (s.hasRoom k = false ∧ why = .passed .overflowed) ∨
    (s.hasRoom k = true ∧ s.maxDepth ≤ depth ∧ why = .raised (.tooDeep name s.maxDepth)) ∨
    (∃ failure, why = .passed failure ∧ s.traceCall depth name body m = .halted failure m') ∨
    (s.hasRoom k = true ∧ depth < s.maxDepth ∧ ∃ failure m₁, why = .passed failure ∧
      s.traceCall depth name body m = .done m₁ ∧
      (s.frameAt (depth + 1) (k + callFrames)).run body m₁ = .halted failure m') := by
  cases hk : s.hasRoom k with
  | false =>
    rw [frameAt_call_of_full hk] at h
    cases h
    exact .inl ⟨rfl, rfl⟩
  | true =>
    right
    by_cases hle : s.maxDepth ≤ depth
    · rw [frameAt_call_of_le hk hle] at h
      cases h
      exact .inl ⟨rfl, hle, rfl⟩
    · right
      cases htr : s.traceCall depth name body m with
      | halted failure m₁ =>
        rw [frameAt_call_of_untraced hk hle htr] at h
        cases h
        exact .inl ⟨failure, rfl, rfl⟩
      | done m₁ =>
        rw [frameAt_call_of_traced hk hle htr] at h
        obtain ⟨failure, hwhy, hrun⟩ := Run.eq_of_passed h
        exact .inr ⟨rfl, Int.not_le.1 hle, failure, m₁, hwhy, rfl, hrun⟩

section Calls

variable {s : Settings} (hw : ∀ name body, s.words.body? name = some body → body.JumpsAhead)

include hw

/-- A call of a word ends by the rules, nesting no deeper than there is room for below the limit. -/
theorem called_call {nesting depth height : Nat} (hd : s.maxDepth.toNat ≤ depth + nesting) (k : Nat) {name : String}
    {body : Program} (hb : s.words.body? name = some body) (m : Machine) :
    Called s nesting depth k name body m ((s.frameAt depth height).call k name body m) := by
  induction nesting generalizing depth height k name body m with
  | zero =>
    cases hk : s.hasRoom k with
    | false => exact (called_iff_of_full hk).2 (Settings.frameAt_call_of_full hk name body m)
    | true =>
      unfold Called
      rw [if_pos hk]
      have hle : s.maxDepth ≤ depth := by omega
      exact ⟨hle, Settings.frameAt_call_of_le hk hle name body m⟩
  | succ nesting ih =>
    cases hk : s.hasRoom k with
    | false => exact (called_iff_of_full hk).2 (Settings.frameAt_call_of_full hk name body m)
    | true =>
      unfold Called
      rw [if_pos hk]
      by_cases hle : s.maxDepth ≤ depth
      · rw [if_pos hle]
        exact Settings.frameAt_call_of_le hk hle name body m
      · rw [if_neg hle]
        cases htr : s.traceCall depth name body m with
        | halted why m' => exact Settings.frameAt_call_of_untraced hk hle htr
        | done m' =>
          have hp := hw name body hb
          have hruns : Runs s (Called s nesting (depth + 1)) (depth + 1) (k + callFrames) body 0 m' _ :=
            hp.runs_walk (fun k name body m hb => ih (by omega) k hb m) 0 m'
          refine ⟨_, hruns, ?_⟩
          rw [Settings.frameAt_call_of_traced hk hle htr, hp.run_eq, List.drop_zero]

/-- A call by the rules ends as the frame says. -/
theorem Called.eq_call {nesting depth height k : Nat} {name : String} {body : Program}
    (hb : s.words.body? name = some body) {m : Machine} {r : Run Halt} (h : Called s nesting depth k name body m r) :
    r = (s.frameAt depth height).call k name body m := by
  induction nesting generalizing depth height k name body m r with
  | zero =>
    cases hk : s.hasRoom k with
    | false => rw [(called_iff_of_full hk).1 h, Settings.frameAt_call_of_full hk]
    | true =>
      unfold Called at h
      rw [if_pos hk] at h
      rw [Settings.frameAt_call_of_le hk h.1, h.2]
  | succ nesting ih =>
    cases hk : s.hasRoom k with
    | false => rw [(called_iff_of_full hk).1 h, Settings.frameAt_call_of_full hk]
    | true =>
      unfold Called at h
      rw [if_pos hk] at h
      by_cases hle : s.maxDepth ≤ depth
      · rw [if_pos hle] at h
        rw [Settings.frameAt_call_of_le hk hle, h]
      · rw [if_neg hle] at h
        cases htr : s.traceCall depth name body m with
        | halted why m' =>
          rw [htr] at h
          rw [Settings.frameAt_call_of_untraced hk hle htr, h]
        | done m' =>
          rw [htr] at h
          obtain ⟨r', hr, rfl⟩ := h
          have hp := hw name body hb
          have hwalk := hr.eq_walk hp fun k name body m r hb hc => ih hb hc
          rw [Settings.frameAt_call_of_traced hk hle htr, hp.run_eq, hwalk, List.drop_zero]

/-- A program that jumps ahead has exactly one run by the rules, and its calls nest no deeper than the limit. -/
theorem Program.JumpsAhead.runs_iff {p : Program} (hp : p.JumpsAhead) (m : Machine) (r : Run Failure) :
    Runs s (Called s s.maxDepth.toNat 0) 0 0 p 0 m r ↔ r = s.frame.run p m := by
  have hframe : s.frame = s.frameAt 0 0 := rfl
  rw [hframe, hp.run_eq]
  constructor
  · intro h
    exact h.eq_walk hp fun k name body m r hb hc => Called.eq_call hw hb hc
  · rintro rfl
    exact hp.runs_walk (fun k name body m hb => called_call hw (by omega) k hb m) 0 m

end Calls

end Catena
