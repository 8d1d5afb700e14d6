import Catena.Machine
import Catena.Operator
import Catena.Source.Program

/-!
# Evaluation

`step` runs one token at an index and says at which index to go on; `walk` runs a program from an index on as long as
it goes forward, and `Frame.run` starts it over for each jump back.  Programs that come from source text only go
forward, so for these `walk` is the whole run.

Calls of words are handed to the program by its frame: `callWord` counts down how many more calls may nest, so the limit
on the depth is what makes evaluation total.  The limit bounds how deep words call words, and not what that takes of the
host, which is asked for each call (`Settings.hasRoom`): a call from within a repetition takes up more than another.
-/

namespace Catena

open Catena.Text

/-- The surroundings of a running program: the settings, how deep in calls it is, how many frames of the host are taken
up when it takes a step, and how it calls a word from a given height of frames. -/
structure Frame where
  settings : Settings
  depth : Nat
  height : Nat
  call : (height : Nat) → String → Program → Machine → Run Halt

/-- The frame of a step that a repetition repeats. -/
def Frame.repeating (f : Frame) : Frame := { f with height := f.height + repetitionFrames }

/-- What a step leads to: on to an index, or to a halt. -/
inductive Step where
  | next (index : Nat) (m : Machine)
  | halt (why : Halt) (m : Machine)

/-- The step of a run that goes on at an index. -/
def Step.ofRun (index : Nat) : Run Halt → Step
  | .done m => .next index m
  | .halted why m => .halt why m

/-- Repeats a step a number of times, wherever it leads to. -/
def repeatStep (body : Machine → Step) : Nat → Machine → Run Halt
  | 0, m => .done m
  | n + 1, m =>
    match body m with
    | .next _ m' => repeatStep body n m'
    | .halt why m' => .halted why m'

/-- A fault whose message shows a builtin, unless the builtin has no spelling. -/
def raiseShowing (fault : String → Fault) (ref : Reference) (origin : Origin) : Halt :=
  match ref with
  | .known _ => .raised (fault (Token.spelling ref origin))
  | .named name => .passed (.unspelled name)

def Machine.print (m : Machine) : Machine :=
  match m.stack with
  | [] => m
  | v :: _ => m.emit (.printed (v.display ++ ['\n']))

/-- Pops a condition and goes on at the next token if it holds, and after the target if not. -/
def branch (ref : Reference) (target : Option Nat) (origin : Origin) (index : Nat) (m : Machine) : Step :=
  match m.stack with
  | [] => .halt (raiseShowing .noCondition ref origin) m
  | v :: s =>
    let m := m.withStack s
    if v.holds then .next (index + 1) m
    else match target with
      | some j => .next (j + 1) m
      | none => .halt (raiseShowing .noTarget ref origin) m

/-- Runs the token `t` at an index, with the tokens that follow it at hand.  A repetition runs the next token by itself
as often as the count on top of the stack says, and goes on after it. -/
def step (f : Frame) (index : Nat) (t : Token) (following : Program) (m : Machine) : Step :=
  match t with
  | .data v _ => .next (index + 1) (m.push v)
  | .word name _ =>
    match f.settings.words.body? name with
    | some body => .ofRun (index + 1) (f.call f.height name body m)
    | none => if f.settings.strict then .halt (.raised (.undefinedWord name)) m else .next (index + 1) m
  | .definition .. | .other _ => .next (index + 1) m
  | .builtin ref target origin =>
    match ref.resolve? with
    | none => .halt (.raised (.unknownBuiltin ref.name)) m
    | some .print => .next (index + 1) m.print
    | some .forward => .next (index + 1) m
    | some .conditional => branch ref target origin index m
    | some (.operator op) =>
      match op.apply m.stack with
      | .ok s => .next (index + 1) (m.withStack s)
      | .error (fault, s) => .halt (.raised fault) (m.withStack s)
    | some .repetition =>
      match m.stack with
      | [] => .halt (raiseShowing .noCount ref origin) m
      | v :: s =>
        match v.count, following with
        | .error fault, _ => .halt (.raised fault) m
        | .ok _, [] => .halt (raiseShowing .nothingToRepeat ref origin) m
        | .ok n, body :: rest =>
          if body.isConditional || body.isRepetition then
            .halt (raiseShowing (.repeatsControl · body.label) ref origin) m
          else .ofRun (index + 2) (repeatStep (step f.repeating (index + 1) body rest) n.toNat (m.withStack s))

/-- Where a walk through a program ends: at its end, at a jump back to an index, or with a failure. -/
inductive Walk where
  | ended (m : Machine)
  | back (index : Nat) (m : Machine)
  | failed (why : Failure) (m : Machine)

/-- The label of a traced step: the number of steps so far if they are counted, and else the index. -/
def Frame.stepLabel (f : Frame) (index : Nat) (m : Machine) : List Char :=
  padLeft 3 (Nat.toDigits 10 (((f.settings.tally.advance m.steps).count?).getD index))

/-- Traces a step that is about to be taken, if every step is traced. -/
def Frame.traceStep (f : Frame) (index : Nat) (program : Program) (m : Machine) : Run Failure :=
  if f.settings.verbosity = 2 then m.trace f.depth (f.stepLabel index m) program else .done m

/-- Runs the rest of a program, which starts at an index, after passing over the given number of tokens. -/
def walk (f : Frame) : (index skip : Nat) → Program → Machine → Walk
  | _, _, [], m => .ended m
  | i, k + 1, _ :: ts, m => walk f (i + 1) k ts m
  | i, 0, t :: ts, m =>
    match f.traceStep i (t :: ts) m with
    | .halted why m => .failed why m
    | .done m =>
      match step f i t ts m.tick with
      | .halt why m => .failed (why.blame t m.stack) m
      | .next j m => if i < j then walk f (i + 1) (j - (i + 1)) ts m else .back j m

/-- Runs a program from an index on, jumping back at most the given number of times. -/
def Frame.runFrom (f : Frame) (program : Program) (patience index : Nat) (m : Machine) : Run Failure :=
  match walk f 0 index program m, patience with
  | .ended m, _ => .done m
  | .failed why m, _ => .halted why m
  | .back _ m, 0 => .halted .exhausted m
  | .back j m, patience + 1 => f.runFrom program patience j m

def Frame.run (f : Frame) (program : Program) (m : Machine) : Run Failure :=
  f.runFrom program f.settings.patience 0 m

/-- Traces the call of a word, if calls are traced. -/
def Settings.traceCall (s : Settings) (depth : Nat) (name : String) (body : Program) (m : Machine) : Run Failure :=
  if s.verbosity = 1 then m.trace depth (padLeft 3 name.toList) body else .done m

/-- Calls a word from a program at the given depth and height, as long as the host has room and there is room for a call
to nest. -/
def callWord (s : Settings) : (room depth height : Nat) → String → Program → Machine → Run Halt
  | 0, _, height, name, _, m =>
    if s.hasRoom height then .halted (.raised (.tooDeep name s.maxDepth)) m
    else .halted (.passed .overflowed) m
  | room + 1, depth, height, name, body, m =>
    if s.hasRoom height then
      match s.traceCall depth name body m with
      | .halted why m => .halted (.passed why) m
      | .done m =>
        match Frame.run ⟨s, depth + 1, height + callFrames, callWord s room (depth + 1)⟩ body m with
        | .done m => .done m
        | .halted why m => .halted (.passed why) m
    else .halted (.passed .overflowed) m

/-- The frame of a program that no word has called. -/
def Settings.frame (s : Settings) : Frame := ⟨s, 0, 0, callWord s s.maxDepth.toNat 0⟩

/-- Runs a program on a machine and traces the end of the run, if anything is traced. -/
def interpret (s : Settings) (program : Program) (m : Machine) : Run Failure :=
  match s.frame.run program m with
  | .halted why m => .halted why m
  | .done m => if s.verbosity = 0 then .done m else m.trace 0 "  ✓".toList []

end Catena
