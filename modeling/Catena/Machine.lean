import Catena.Fault
import Catena.Layout

/-!
# The machine

A machine is what a program acts on: the stack, what has been written so far and the number of steps taken.  What
is written is either printed by the program itself or traces its run, and the two are kept apart.

A run ends with a machine, whether it is done or halted: whatever a program did before it failed stays done.
-/

namespace Catena

open Catena.Text

inductive Emission where
  | printed (text : List Char)
  | traced (text : List Char)
deriving DecidableEq, Repr

def Emission.text : Emission → List Char
  | printed t | traced t => t

structure Machine where
  stack : Stack := []
  /-- What has been written, the newest first. -/
  written : List Emission := []
  steps : Nat := 0
deriving DecidableEq

namespace Machine

def push (m : Machine) (v : Value) : Machine := { m with stack := v :: m.stack }

def withStack (m : Machine) (s : Stack) : Machine := { m with stack := s }

def emit (m : Machine) (e : Emission) : Machine := { m with written := e :: m.written }

def tick (m : Machine) : Machine := { m with steps := m.steps + 1 }

def output (m : Machine) : List Emission := m.written.reverse

theorem output_emit (m : Machine) (e : Emission) : (m.emit e).output = m.output ++ [e] := by
  simp [emit, output]

end Machine

/-- The end of a run: the machine it leaves and, if it halted, why. -/
inductive Run (ε : Type) where
  | done (m : Machine)
  | halted (why : ε) (m : Machine)

def Run.machine {ε : Type} : Run ε → Machine
  | done m | halted _ m => m

/-- Which token an error is blamed on, and the stack that was left. -/
structure Blame where
  token : String
  origin : Origin
  stack : Stack
deriving DecidableEq

/-- Why a program failed.  Programs that come from source text fail with a fault, or because their host gives out. -/
inductive Failure where
  | fault (cause : Fault) (blame : Blame)
  /-- A token had to be shown that refers to no builtin by name. -/
  | unspelled (name : String)
  /-- A conditional with a target before itself jumped back too often. -/
  | exhausted
  /-- Calls nested deeper than the host has room for.  That is no fault of the program, and nothing is blamed. -/
  | overflowed
deriving DecidableEq

/-- Why a step failed: with a fault of its own, not blamed yet, or because a program that it ran failed. -/
inductive Halt where
  | raised (cause : Fault)
  | passed (failure : Failure)
deriving DecidableEq

/-- Blames a fault on the token that raised it, unless an inner program has already done so. -/
def Halt.blame (why : Halt) (t : Token) (s : Stack) : Failure :=
  match why with
  | passed failure => failure
  | raised cause =>
    match cause.culprit?.filter (· ≠ "") with
    | some name => .fault cause ⟨name, t.origin, s⟩
    | none =>
      match t.unspelled? with
      | some name => .unspelled name
      | none => .fault cause ⟨t.label, t.origin, s⟩

/-- How steps are counted across runs: not at all, from a count that has not begun, or on from a number. -/
inductive Tally where
  | off
  | fresh
  | reached (steps : Nat)
deriving DecidableEq, Repr

namespace Tally

def advance : Tally → Nat → Tally
  | off, _ => off
  | fresh, 0 => fresh
  | fresh, n + 1 => reached (n + 1)
  | reached k, n => reached (k + n)

def count? : Tally → Option Nat
  | reached n => some n
  | _ => none

end Tally

/-- The frames that a call of a word takes up: of the call, of the run of the body and of the step in it. -/
def callFrames : Nat := 3

/-- The frames that a repetition takes up: its own, and that of the step that it repeats. -/
def repetitionFrames : Nat := 2

/-- What hosts the evaluation.  It may have room for so many frames only, and gives out where calls need more.  How many
there are is set outside of the language, so that what is said of evaluation is said of any host. -/
structure Host where
  /-- The number of frames that there is room for above those of the line itself, if it is bounded.  It is taken to be
  the same wherever a line is fed from. -/
  frames? : Option Nat := none
  /-- The frames that are kept free in the body of a word for what its tokens do other than to call words: to apply an
  operator, to build an error and, at the given verbosity, to trace. -/
  reserve : (verbosity : Nat) → Nat := fun _ => 0

/-- What stays the same throughout a run. -/
structure Settings where
  words : Words := {}
  /-- Whether a word that is not defined is an error. -/
  strict : Bool := false
  /-- How deep words may call words. -/
  maxDepth : Int := 200
  /-- A verbosity of one traces calls, of two every step, and of any other than zero the end of the run. -/
  verbosity : Nat := 0
  tally : Tally := .off
  /-- How often each program may jump back. -/
  patience : Nat := 0x10000000000000000
  host : Host := {}

/-- Whether the host has room for the call of a word, made with the given number of frames taken up. -/
def Settings.hasRoom (s : Settings) (height : Nat) : Bool :=
  s.host.frames?.all (height + callFrames + s.host.reserve s.verbosity ≤ ·)

/-- Where there is room for a call, there is room for one from further down. -/
theorem Settings.hasRoom_of_le {s : Settings} {height height' : Nat} (hle : height' ≤ height)
    (h : s.hasRoom height = true) : s.hasRoom height' = true := by
  unfold hasRoom at h ⊢
  cases hframes : s.host.frames? with
  | none => rfl
  | some frames =>
    simp only [hframes, Option.all_some, decide_eq_true_eq] at h ⊢
    omega

/-- The head of a trace line. -/
def traceHead (depth : Nat) (label : List Char) : List Char :=
  Colour.paint "90" (List.replicate (2 * depth) ' ' ++ label ++ " :".toList) ++ "  ".toList

/-- Traces a program that is to run.  A program without text leaves the head of the line alone. -/
def Machine.trace (m : Machine) (depth : Nat) (label : List Char) (program : Program) : Run Failure :=
  let headed := m.emit (.traced (traceHead depth label))
  match Program.textless? program with
  | some name => .halted (.unspelled name) headed
  | none => .done (headed.emit (.traced (stateLine fieldWidth program m.stack)))

end Catena
