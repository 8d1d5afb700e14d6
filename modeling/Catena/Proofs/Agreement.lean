import Catena.Proofs.Sequence
import Catena.Proofs.Tracing

/-!
# Runs that agree

Two ways to do the same may take different numbers of steps and trace different things.  They agree if they leave the
same stack, have printed the same texts, and both are done or both fail, with failures that have the same `key`
(`Run.Agrees`).  A program runs in agreement on machines that agree, whether it is traced or not (`interpret_agrees`),
so that it is enough to compare runs that are not traced, and to compare them up to the number of steps.
-/

namespace Catena

/-- Machines with the same stack that have printed the same. -/
structure Machine.Agrees (m m' : Machine) : Prop where
  stack_eq : m'.stack = m.stack
  printed_eq : m'.printed = m.printed

namespace Machine.Agrees

variable {m m' m'' : Machine}

theorem refl (m : Machine) : m.Agrees m := ⟨rfl, rfl⟩

theorem symm (h : m.Agrees m') : m'.Agrees m := ⟨h.stack_eq.symm, h.printed_eq.symm⟩

theorem trans (h : m.Agrees m') (h' : m'.Agrees m'') : m.Agrees m'' :=
  ⟨h'.stack_eq.trans h.stack_eq, h'.printed_eq.trans h.printed_eq⟩

/-- Steps are not counted. -/
theorem tick (h : m.Agrees m') : m.tick.Agrees m' := ⟨h.stack_eq, h.printed_eq⟩

end Machine.Agrees

theorem Machine.Untraced.agrees {m m' : Machine} (h : m.Untraced m') : m.Agrees m' := ⟨h.stack_eq, h.printed_eq⟩

/-- Runs on machines that agree are both done, or both fail with failures that have the same key. -/
inductive Run.Agrees {κ : Type} (key : Failure → κ) : Run Failure → Run Failure → Prop where
  | done {m m' : Machine} (h : m.Agrees m') : Agrees key (.done m) (.done m')
  | halted {why why' : Failure} {m m' : Machine} (h : m.Agrees m') (hkey : key why' = key why) :
      Agrees key (.halted why m) (.halted why' m')

namespace Run.Agrees

variable {κ : Type} {key : Failure → κ} {r r' r'' : Run Failure}

theorem symm (h : Agrees key r r') : Agrees key r' r := by
  cases h with
  | done h => exact .done h.symm
  | halted h hkey => exact .halted h.symm hkey.symm

theorem trans (h : Agrees key r r') (h' : Agrees key r' r'') : Agrees key r r'' := by
  cases h with
  | done h =>
    cases h' with
    | done h' => exact .done (h.trans h')
  | halted h hkey =>
    cases h' with
    | halted h' hkey' => exact .halted (h.trans h') (hkey'.trans hkey)

theorem andThen (h : Agrees key r r') {next next' : Machine → Run Failure}
    (hnext : ∀ {m m'}, m.Agrees m' → Agrees key (next m) (next' m')) :
    Agrees key (r.andThen next) (r'.andThen next') := by
  cases h with
  | done h => exact hnext h
  | halted h hkey => exact .halted h hkey

end Run.Agrees

/-- Steps that lead on to the same index, or halt for the same reason, with machines that agree. -/
inductive Step.Agrees : Step → Step → Prop where
  | next {j : Nat} {m m' : Machine} (h : m.Agrees m') : Agrees (.next j m) (.next j m')
  | halt {why : Halt} {m m' : Machine} (h : m.Agrees m') : Agrees (.halt why m) (.halt why m')

/-! ### The same program -/

/-- The runs agree, for programs that have a text, or the first overflows and that is an excuse. -/
def Likeness.agreeing (excusesOverflow : Prop) : Likeness :=
  { Likeness.untraced with
    machine := Machine.Agrees
    excusesOverflow
    stack_eq := fun h => h.stack_eq
    withStack := fun h _ => ⟨rfl, h.printed_eq⟩
    tick := fun h => ⟨h.stack_eq, h.printed_eq⟩
    printed := fun h text => ⟨h.stack_eq, by rw [Machine.printed_emit, Machine.printed_emit, h.printed_eq]⟩ }

section

variable {O : Prop}

theorem Likeness.ignoresTraces_agreeing : (Likeness.agreeing O).IgnoresTraces where
  origin_eq _ := rfl
  textless?_eq_none h := h
  square h h₁ h₁' := h₁.agrees.symm.trans (h.trans h₁'.agrees)

private theorem Likeness.excusesFailure_agreeing {why : Failure} (h : (Likeness.agreeing O).excusesFailure why) :
    why = .overflowed ∧ O := by
  cases why with
  | overflowed => exact ⟨rfl, h⟩
  | _ => exact h.elim

private theorem Run.Follows.agrees {r r' : Run Failure} (h : Run.Follows (.agreeing False) r r') :
    Run.Agrees id r r' := by
  cases h with
  | done hm => exact .done hm
  | @halted why m m' hm => exact .halted hm (by cases why <;> rfl)
  | excused hwhy => exact (Likeness.excusesFailure_agreeing hwhy).2.elim

private theorem Step.Follows.agrees_or {st st' : Step} (h : Step.Follows (.agreeing O) st st') :
    Step.Agrees st st' ∨ O ∧ ∃ m, st = .halt (.passed .overflowed) m := by
  cases h with
  | next hm => exact .inl (.next hm)
  | @halt why m m' hm =>
    have hwhy : why.relocate (Likeness.agreeing O).origin = why := by
      cases why with
      | raised cause => rfl
      | passed failure => cases failure <;> rfl
    rw [hwhy]
    exact .inl (.halt hm)
  | @excused why m st' hwhy =>
    cases why with
    | raised cause => exact hwhy.elim
    | passed failure =>
      obtain ⟨rfl, ho⟩ := Likeness.excusesFailure_agreeing hwhy
      exact .inr ⟨ho, m, rfl⟩

private theorem step_agrees_or {f f' : Frame} (hf : f.Follows (.agreeing O) f') (i : Nat) (t : Token)
    (following : Program) {m m' : Machine} (hm : m.Agrees m') :
    Step.Agrees (step f i t following m) (step f' i t following m') ∨
      O ∧ ∃ m₁, step f i t following m = .halt (.passed .overflowed) m₁ := by
  have hstep := step_follows hf i t following hm
  have hid : t.relocate (Likeness.agreeing O).origin = t := Token.relocate_id t
  rw [Likeness.ignoresTraces_agreeing.relocate_eq, hid] at hstep
  exact hstep.agrees_or

end

section

variable {s : Settings} (hs : s.words.Forall Program.IsSound)

include hs

theorem Settings.follows_agreeing (O : Prop) (verbosity : Nat) {host : Host}
    (hroom : { s with verbosity, host }.hasRoom = s.hasRoom) :
    s.Follows (.agreeing O) { s with verbosity, host } :=
  Likeness.ignoresTraces_agreeing.follows (fun e he => Program.textless?_eq_none_iff.1 (hs e he).2) verbosity s.tally
    hroom

private theorem Settings.follows_quiet : s.Follows (.agreeing False) s.quiet :=
  Settings.follows_agreeing hs False 0 rfl

/-- On machines that agree, a token takes a step in agreement. -/
theorem step_agrees (i : Nat) (t : Token) (following : Program) {m m' : Machine} (hm : m.Agrees m') :
    Step.Agrees (step s.frame i t following m) (step s.frame i t following m') :=
  (step_agrees_or (Settings.follows_agreeing hs False s.verbosity rfl).frame i t following hm).resolve_right
    fun h => h.1

/-- On machines that agree, a program runs in agreement whether it is traced or not. -/
theorem interpret_agrees {p : Program} (hp : p.IsSound) {m m' : Machine} (hm : m.Agrees m') :
    Run.Agrees id (interpret s p m) (interpret s.quiet p m') := by
  have hrun := interpret_follows (Settings.follows_quiet hs) (Program.textless?_eq_none_iff.1 hp.2) hm
  rw [Likeness.ignoresTraces_agreeing.relocate_eq] at hrun
  exact hrun.agrees

theorem interpret_quiet_agrees {p : Program} (hp : p.IsSound) {m m' : Machine} (hm : m.Agrees m') :
    Run.Agrees id (interpret s.quiet p m) (interpret s p m') :=
  (interpret_agrees hs hp hm.symm).symm

end

/-! ### Programs before they are paired -/

namespace Program

/-- Tokens as the reader makes them, before conditionals are paired: they are fresh and have a text. -/
def IsFresh (ts : Program) : Prop := ∀ t ∈ ts, t.isFresh ∧ t.textless? = none

instance (ts : Program) : Decidable ts.IsFresh := inferInstanceAs (Decidable (∀ t ∈ ts, t.isFresh ∧ t.textless? = none))

theorem IsFresh.isFresh {ts : Program} (h : ts.IsFresh) : ∀ t ∈ ts, t.isFresh := fun t ht => (h t ht).1

theorem IsFresh.isSound_pair {ts : Program} (h : ts.IsFresh) : (pair ts).IsSound :=
  ⟨pair_jumpsAhead h.isFresh, textless?_pair fun t ht => (h t ht).2⟩

end Program

end Catena
