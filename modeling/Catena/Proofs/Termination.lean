import Catena.Proofs.Dictionary
import Catena.Proofs.Rules

/-!
# Evaluation ends with a stack or an error

A run of programs that jump ahead fails with a fault, because a token had to be shown that has no text, or because the
host has no room for a call (`interpret_halted`).  So evaluation does not stop for want of patience, and with the rules
of a run that is to say that it always ends (`interpret_terminates`).

A call takes up five frames at most, if it stands in a repetition.  The limit on the depth is thus a limit on the
frames, and a host that has room for these is never short of it (`Settings.hasRoomToLimit`).
-/

namespace Catena

/-- Whether the host has room for calls that nest down to the limit, each of them in a repetition. -/
def Settings.hasRoomToLimit (s : Settings) : Bool :=
  s.hasRoom (s.maxDepth.toNat * (callFrames + repetitionFrames) + repetitionFrames)

theorem Settings.hasRoomToLimit_of_full {s : Settings} {depth k : Nat} (hd : depth ≤ s.maxDepth.toNat)
    (hle : k ≤ depth * (callFrames + repetitionFrames) + repetitionFrames) (hk : s.hasRoom k = false) :
    s.hasRoomToLimit = false := by
  have hlimit := Nat.add_le_add_right (Nat.mul_le_mul_right (callFrames + repetitionFrames) hd) repetitionFrames
  refine Bool.eq_false_iff.2 fun hroom => ?_
  rw [Settings.hasRoom_of_le (Nat.le_trans hle hlimit) hroom] at hk
  cases hk

/-! ### What a step can fail with -/

/-- The failure to show a token, which has no text. -/
def Token.Hides (t : Token) (why : Failure) : Prop := ∃ name, t.textless? = some name ∧ why = .unspelled name

private theorem Token.hides_of_unspelled? {t : Token} {name : String} (h : t.unspelled? = some name) :
    t.Hides (.unspelled name) := by
  refine ⟨name, ?_, rfl⟩
  cases t with
  | definition => simp [Token.unspelled?] at h
  | _ => simpa [Token.textless?] using h

theorem Program.exists_of_textless? {p : Program} {name : String} (h : Program.textless? p = some name) :
    ∃ t ∈ p, t.textless? = some name := by
  induction p with
  | nil => simp [Program.textless?] at h
  | cons t ts ih =>
    rw [Program.textless?, Option.or_eq_some_iff] at h
    rcases h with h | ⟨-, h⟩
    · exact ⟨t, by simp, h⟩
    · obtain ⟨u, hu, hn⟩ := ih h
      exact ⟨u, by simp [hu], hn⟩

theorem raiseShowing_passed {fault : String → Fault} {ref : Reference} {target : Option Nat} {origin : Origin}
    {why : Failure} (h : raiseShowing fault ref origin = .passed why) :
    (Token.builtin ref target origin).Hides why := by
  cases ref with
  | known b => simp [raiseShowing] at h
  | named name =>
    obtain rfl : Failure.unspelled name = why := by simpa [raiseShowing] using h
    exact ⟨name, rfl, rfl⟩

theorem branch_passed {ref : Reference} {target : Option Nat} {origin : Origin} {i : Nat} {m m' : Machine}
    {why : Failure} (h : branch ref target origin i m = .halt (.passed why) m') :
    (Token.builtin ref target origin).Hides why := by
  unfold branch at h
  split at h
  · exact raiseShowing_passed (Step.halt.inj h).1
  · rename_i v st _
    cases hv : v.holds with
    | true => simp [hv] at h
    | false =>
      cases target with
      | some j => simp [hv] at h
      | none =>
        simp only [hv, Bool.false_eq_true, ↓reduceIte, Step.halt.injEq] at h
        exact raiseShowing_passed h.1

private theorem Repeats.exists_halt {s : Settings} {calls : Calls} {height i n : Nat} {body : Token} {rest : Program}
    {m m' : Machine} {why : Halt} (h : Repeats s calls height i body rest n m (.halted why m')) :
    ∃ m₁, Takes s calls height i body rest m₁ (.halt why m') := by
  induction n generalizing m with
  | zero => cases h
  | succ n ih =>
    cases h with
    | next hb hn => exact ih hn
    | halt hb => exact ⟨m, hb⟩

theorem Step.ofRun_eq_halt {i : Nat} {r : Run Halt} {why : Halt} {m : Machine}
    (h : Step.ofRun i r = .halt why m) : r = .halted why m := by
  cases r with
  | done m' => cases h
  | halted why' m' => cases h; rfl

/-- A call by some tokens at the given height fails, and its failure is passed on.  Of tokens that refer to builtins by
what they are, only a repetition adds to the height, and it does not repeat another. -/
def Program.PassesOn (s : Settings) (calls : Calls) (height : Nat) (ts : Program) (why : Failure) : Prop :=
  ∃ k name body m m', s.words.body? name = some body ∧ calls k name body m (.halted (.passed why) m') ∧
    ((∀ t ∈ ts, t.isKnown) → k ≤ height + repetitionFrames)

theorem Program.PassesOn.mono {s : Settings} {calls : Calls} {height : Nat} {ts ts' : Program} {why : Failure}
    (h : PassesOn s calls height ts why) (hts : ts ⊆ ts') : PassesOn s calls height ts' why := by
  obtain ⟨k, name, body, m, m', hb, hc, hk⟩ := h
  exact ⟨k, name, body, m, m', hb, hc, fun hknown => hk fun t ht => hknown t (hts ht)⟩

section Takes

variable {s : Settings} {calls : Calls} {height i : Nat} {t : Token} {following : Program} {m m' : Machine}
  {why : Failure}

/-- What a token passes on that repeats no other comes from a call at the height of the token itself. -/
theorem Takes.passed_of_not_repeats (ht : t.repeats = false)
    (h : Takes s calls height i t following m (.halt (.passed why) m')) :
    t.Hides why ∨
      ∃ name body, s.words.body? name = some body ∧ calls height name body m (.halted (.passed why) m') := by
  generalize hr : Step.halt (.passed why) m' = r at h
  cases h with
  | called hb hcall => exact .inr ⟨_, _, hb, Step.ofRun_eq_halt hr.symm ▸ hcall⟩
  | branch => exact .inl (branch_passed hr.symm)
  | noCount hrep | nothingToRepeat hrep | repeatsControl hrep | repetition hrep => simp [Token.repeats, hrep] at ht
  | _ => cases hr

/-- A failure that a step passes on comes from a call, or from a token without a text. -/
theorem Takes.passed (h : Takes s calls height i t following m (.halt (.passed why) m')) :
    (∃ u ∈ t :: following, u.Hides why) ∨ Program.PassesOn s calls height (t :: following) why := by
  induction following generalizing height i t m m' with
  | nil =>
    generalize hr : Step.halt (.passed why) m' = r at h
    cases h with
    | called hb hcall =>
      exact .inr ⟨_, _, _, _, _, hb, Step.ofRun_eq_halt hr.symm ▸ hcall, fun _ => Nat.le_add_right _ _⟩
    | branch => exact .inl ⟨_, List.mem_cons_self, branch_passed hr.symm⟩
    | noCount | nothingToRepeat => exact .inl ⟨_, List.mem_cons_self, raiseShowing_passed (Step.halt.inj hr).1.symm⟩
    | _ => cases hr
  | cons body rest ih =>
    generalize hr : Step.halt (.passed why) m' = r at h
    cases h with
    | called hb hcall =>
      exact .inr ⟨_, _, _, _, _, hb, Step.ofRun_eq_halt hr.symm ▸ hcall, fun _ => Nat.le_add_right _ _⟩
    | branch => exact .inl ⟨_, List.mem_cons_self, branch_passed hr.symm⟩
    | noCount | repeatsControl => exact .inl ⟨_, List.mem_cons_self, raiseShowing_passed (Step.halt.inj hr).1.symm⟩
    | repetition hrep hm hv hcontrol hn =>
      rw [Step.ofRun_eq_halt hr.symm] at hn
      obtain ⟨m₁, hb⟩ := hn.exists_halt
      by_cases hknown : body.isKnown
      · -- the token that is repeated repeats nothing itself
        have hbody : body.repeats = false := by
          rw [Token.repeats_of_isKnown hknown]
          exact (Bool.or_eq_false_iff.1 hcontrol).2
        rcases hb.passed_of_not_repeats hbody with hhides | ⟨name, q, hq, hcall⟩
        · exact .inl ⟨body, by simp, hhides⟩
        · exact .inr ⟨_, name, q, _, _, hq, hcall, fun _ => Nat.le_refl _⟩
      · rcases ih hb with ⟨u, hu, hhides⟩ | ⟨k, name, q, m₂, m₃, hq, hcall, -⟩
        · exact .inl ⟨u, List.mem_cons_of_mem _ hu, hhides⟩
        · exact .inr ⟨k, name, q, m₂, m₃, hq, hcall, fun h => absurd (h body (by simp)) hknown⟩
    | _ => cases hr

end Takes

/-! ### What a run can fail with -/

theorem Machine.trace_halted {m m' : Machine} {depth : Nat} {label : List Char} {p : Program} {why : Failure}
    (h : m.trace depth label p = .halted why m') : ∃ t ∈ p, t.Hides why := by
  unfold Machine.trace at h
  cases ht : Program.textless? p with
  | none => simp [ht] at h
  | some name =>
    obtain ⟨t, hmem, hn⟩ := Program.exists_of_textless? ht
    obtain ⟨rfl, -⟩ : Failure.unspelled name = why ∧ _ := by simpa [ht] using h
    exact ⟨t, hmem, name, hn, rfl⟩

private theorem Halt.blame_cases (why : Halt) (t : Token) (s : Stack) :
    (∃ cause blame, why.blame t s = .fault cause blame) ∨ t.Hides (why.blame t s) ∨ why = .passed (why.blame t s) := by
  cases why with
  | passed failure => exact .inr (.inr rfl)
  | raised cause =>
    unfold Halt.blame
    dsimp only
    split
    · exact .inl ⟨_, _, rfl⟩
    · split
      · rename_i name hn
        exact .inr (.inl (Token.hides_of_unspelled? hn))
      · exact .inl ⟨_, _, rfl⟩

/-- What a walk can fail with: a fault, the failure to show one of its tokens, or what a call fails with. -/
theorem walk_failed {f : Frame} {i skip : Nat} {ts : Program} {m m' : Machine} {why : Failure}
    (h : walk f i skip ts m = .failed why m') :
    (∃ cause blame, why = .fault cause blame) ∨ (∃ t ∈ ts, t.Hides why) ∨
      Program.PassesOn f.settings (fun k name body m r => f.call k name body m = r) f.height ts why := by
  induction ts generalizing i skip m with
  | nil => simp [walk] at h
  | cons t ts ih =>
    have hrest : ∀ {i skip : Nat} {m : Machine}, walk f i skip ts m = .failed why m' →
        (∃ cause blame, why = .fault cause blame) ∨ (∃ u ∈ t :: ts, u.Hides why) ∨
        Program.PassesOn f.settings (fun k name body m r => f.call k name body m = r) f.height (t :: ts) why := by
      intro i skip m h
      rcases ih h with hfault | ⟨u, hu, hhides⟩ | hpasses
      · exact .inl hfault
      · exact .inr (.inl ⟨u, List.mem_cons_of_mem t hu, hhides⟩)
      · exact .inr (.inr (hpasses.mono (List.subset_cons_self t ts)))
    cases skip with
    | succ skip => exact hrest h
    | zero =>
      cases htr : f.traceStep i (t :: ts) m with
      | halted why₁ m₁ =>
        rw [walk_of_untraced htr] at h
        cases h
        unfold Frame.traceStep at htr
        split at htr
        · exact .inr (.inl (Machine.trace_halted htr))
        · cases htr
      | done m₁ =>
        cases hs : step f i t ts m₁.tick with
        | next j m₂ =>
          by_cases hj : i < j
          · rw [walk_of_next htr hs hj] at h
            exact hrest h
          · rw [walk_of_back htr hs hj] at h
            cases h
        | halt why₁ m₂ =>
          rw [walk_of_halt htr hs] at h
          obtain ⟨rfl, rfl⟩ := Walk.failed.inj h
          -- a fault of the step itself is blamed here; any other failure comes from a call
          rcases why₁.blame_cases t m₂.stack with hfault | hhides | hpassed
          · exact .inl hfault
          · exact .inr (.inl ⟨t, by simp, hhides⟩)
          · rw [hpassed] at hs
            have htake : Takes f.settings (fun k name body m r => f.call k name body m = r) f.height i t ts m₁.tick
                (.halt (.passed (why₁.blame t m₂.stack)) m₂) := hs ▸ takes_step (fun _ _ _ _ _ => rfl) i t ts m₁.tick
            exact .inr htake.passed

/-- What the run of a program that jumps ahead can fail with. -/
theorem Program.JumpsAhead.run_failed {f : Frame} {p : Program} (hp : p.JumpsAhead) {m m' : Machine} {why : Failure}
    (h : f.run p m = .halted why m') :
    (∃ cause blame, why = .fault cause blame) ∨ (∃ t ∈ p, t.Hides why) ∨
      p.PassesOn f.settings (fun k name body m r => f.call k name body m = r) f.height why := by
  rw [hp.run_eq] at h
  cases hwalk : walk f 0 0 p m with
  | ended m₁ =>
    rw [hwalk] at h
    cases h
  | back j m₁ => exact absurd hwalk (hp.walk_ne_back _ List.drop_zero 0 m j m₁)
  | failed why₁ m₁ =>
    rw [hwalk] at h
    cases h
    exact walk_failed hwalk

theorem Settings.traceCall_halted {s : Settings} {depth : Nat} {name : String} {body : Program} {m m' : Machine}
    {why : Failure} (h : s.traceCall depth name body m = .halted why m') : ∃ t ∈ body, t.Hides why := by
  unfold traceCall at h
  split at h
  · exact Machine.trace_halted h
  · cases h

/-- The failure of a run is that of the program, whose end can always be traced. -/
theorem run_of_interpret {s : Settings} {p : Program} {m m' : Machine} {why : Failure}
    (h : interpret s p m = .halted why m') : (s.frameAt 0 0).run p m = .halted why m' := by
  have hframe : s.frame = s.frameAt 0 0 := rfl
  unfold interpret at h
  rw [hframe] at h
  cases hrun : (s.frameAt 0 0).run p m with
  | halted why₁ m₁ =>
    rw [hrun] at h
    cases h
    rfl
  | done m₁ =>
    rw [hrun] at h
    dsimp only at h
    split at h
    · cases h
    · cases h

section

variable {s : Settings} (hw : ∀ name body, s.words.body? name = some body → body.JumpsAhead)

include hw

/-- What the call of a word can fail with on the way: a fault, the failure to show a token in the body of a word, or the
overflow of a host that has no room for all calls down to the limit. -/
theorem frameAt_call_halted {depth height k : Nat} {name : String} {body : Program}
    (hb : s.words.body? name = some body) {m m' : Machine} {why : Failure}
    (h : (s.frameAt depth height).call k name body m = .halted (.passed why) m') :
    (∃ cause blame, why = .fault cause blame) ∨ (∃ name q, s.words.body? name = some q ∧ ∃ t ∈ q, t.Hides why) ∨
      why = .overflowed ∧ ((∀ name q, s.words.body? name = some q → ∀ t ∈ q, t.isKnown) → depth ≤ s.maxDepth.toNat →
        k ≤ depth * (callFrames + repetitionFrames) + repetitionFrames → s.hasRoomToLimit = false) := by
  -- each call leaves less room below the limit
  induction hn : s.maxDepth.toNat - depth using Nat.strongRecOn
    generalizing depth height k name body m m' why with
  | ind n ih =>
    rcases Settings.frameAt_call_halted_cases h with ⟨hfull, hover⟩ | ⟨-, -, hraised⟩ | ⟨_, hpassed, htr⟩ |
      ⟨-, hlt, _, m₁, hpassed, -, hrun⟩
    · exact .inr (.inr ⟨Halt.passed.inj hover, fun _ hd hle => Settings.hasRoomToLimit_of_full hd hle hfull⟩)
    · cases hraised
    · obtain rfl := Halt.passed.inj hpassed
      exact .inr (.inl ⟨name, body, hb, Settings.traceCall_halted htr⟩)
    · obtain rfl := Halt.passed.inj hpassed
      rcases (hw name body hb).run_failed hrun with hfault | hhides | ⟨k', callee, q, m₂, m₃, hq, hcall, hk'⟩
      · exact .inl hfault
      · exact .inr (.inl ⟨name, body, hb, hhides⟩)
      · rcases ih _ (by omega) hq hcall rfl with hfault | hhides | ⟨hwhy, hroom⟩
        · exact .inl hfault
        · exact .inr (.inl hhides)
        · refine .inr (.inr ⟨hwhy, fun hknown hd hle => hroom hknown (by omega) ?_⟩)
          have hbody : k' ≤ k + callFrames + repetitionFrames := hk' (hknown name body hb)
          rw [Nat.succ_mul]
          omega

/-- What running a program can fail with: a fault, the failure to show a token of the program or of a word, or the
overflow of a host.  That comes only where the host has no room for all calls down to the limit. -/
theorem interpret_halted {p : Program} (hp : p.JumpsAhead) {m m' : Machine} {why : Failure}
    (h : interpret s p m = .halted why m') :
    (∃ cause blame, why = .fault cause blame) ∨
      (∃ q, (q = p ∨ ∃ name, s.words.body? name = some q) ∧ ∃ t ∈ q, t.Hides why) ∨
      why = .overflowed ∧ ((∀ q, (q = p ∨ ∃ name, s.words.body? name = some q) → ∀ t ∈ q, t.isKnown) →
        s.hasRoomToLimit = false) := by
  rcases hp.run_failed (run_of_interpret h) with hfault | hhides | ⟨k, name, q, m₁, m₂, hq, hcall, hk⟩
  · exact .inl hfault
  · exact .inr (.inl ⟨p, .inl rfl, hhides⟩)
  · rcases frameAt_call_halted hw hq hcall with hfault | ⟨name, q, hq, hhides⟩ | ⟨hwhy, hroom⟩
    · exact .inl hfault
    · exact .inr (.inl ⟨q, .inr ⟨name, hq⟩, hhides⟩)
    · refine .inr (.inr ⟨hwhy, fun hknown => hroom (fun name q hq => hknown q (.inr ⟨name, hq⟩)) (Nat.zero_le _) ?_⟩)
      have hprogram : k ≤ 0 + repetitionFrames := hk (hknown p (.inl rfl))
      rwa [Nat.zero_mul]

end

/-- What is left to do when a run is over: to trace its end. -/
def Settings.conclude (s : Settings) : Run Failure → Run Failure
  | .halted why m => .halted why m
  | .done m => if s.verbosity = 0 then .done m else m.trace 0 "  ✓".toList []

/-- Evaluation ends.  By the rules there is exactly one run, in which calls nest no deeper than the limit, and
`interpret` computes it, however little patience it has; each step on the way, of the program or of a word, leads
further on and at most to the end. -/
theorem interpret_terminates (s : Settings) {p : Program} (hp : p.JumpsAhead)
    (hw : ∀ name body, s.words.body? name = some body → body.JumpsAhead) (m : Machine) :
    (∃ r, (∀ r', Runs s (Called s s.maxDepth.toNat 0) 0 0 p 0 m r' ↔ r' = r) ∧ interpret s p m = s.conclude r) ∧
    (∀ m', interpret s p m ≠ .halted .exhausted m') ∧
    (∀ q : Program, (q = p ∨ ∃ name, s.words.body? name = some q) → ∀ (f : Frame) (i j : Nat) (t : Token)
      (m m' : Machine), q[i]? = some t → step f i t (q.drop (i + 1)) m = .next j m' → i < j ∧ j ≤ q.length) := by
  refine ⟨⟨s.frame.run p m, hp.runs_iff hw m, ?_⟩, ?_, ?_⟩
  · unfold interpret
    cases s.frame.run p m <;> rfl
  · intro m' h
    rcases interpret_halted hw hp h with ⟨cause, blame, hwhy⟩ | ⟨q, -, t, -, name, -, hwhy⟩ | ⟨hwhy, -⟩ <;> cases hwhy
  · intro q hq f i j t m m' ht hs
    have hq' : q.JumpsAhead := by
      rcases hq with rfl | ⟨name, hb⟩
      · exact hp
      · exact hw name q hb
    exact hq'.step_bounds ht hs

/-- Two words that call each other, one of them under a conditional and one repeatedly, without an end of their own:
`: ping dup if pong then ; : pong 1e300 do ping ; 1 ping`. -/
theorem interpret_terminates_mutual :
    let known := fun b : Builtin => Token.builtin (.known b) none {}
    let number := fun x : Float => Token.data (.scalar x) {}
    let ping := Program.pair [known (.operator .duplicate), known .conditional, .word "pong" {}, known .forward]
    let pong := Program.pair [number 1e300, known .repetition, .word "ping" {}]
    let s : Settings := { words := .ofList [("ping", ping), ("pong", pong)] }
    let p := Program.pair [number 1, .word "ping" {}]
    p.JumpsAhead ∧ s.words.Forall Program.JumpsAhead ∧ ∀ m', interpret s p {} ≠ .halted .exhausted m' := by
  intro known number ping pong s p
  have hp : p.JumpsAhead := Program.pair_jumpsAhead (by decide)
  have hs : s.words.Forall Program.JumpsAhead := by
    refine Words.forall_ofList fun e he => ?_
    rcases List.mem_cons.1 he with rfl | he
    · exact Program.pair_jumpsAhead (by decide)
    · obtain rfl : e = ("pong", pong) := by simpa using he
      exact Program.pair_jumpsAhead (by decide)
  exact ⟨hp, hs, (interpret_terminates s hp (fun _ _ hb => hs.body? hb) {}).2.1⟩

end Catena
