import Catena.Evaluation
import Catena.Plain
import Catena.Text.Line

/-!
# Sessions

A session is one stack and one dictionary that all lines fed to it share.  The definitions of a line join the
dictionary once the whole line has been read; if its evaluation then fails, they and whatever the line did to the
stack stay.

An error of the language is reported, and the lines after it are run.  Any other error escapes whoever feeds the line:
nothing is reported, and no further line is run.
-/

namespace Catena

open Catena.Text

inductive Channel where
  | out
  | err
deriving DecidableEq, Repr

structure Chunk where
  channel : Channel
  text : List Char
deriving DecidableEq, Repr

/-- Why a line failed: it could not be read, or its evaluation failed. -/
inductive LineError where
  | unread (error : ReadError)
  | failed (failure : Failure)
deriving DecidableEq

namespace LineError

def title : LineError → String
  | unread (.refused e) => e.cause.title
  | failed (.fault cause _) => cause.category.title
  | _ => "Error"

def message : LineError → String
  | unread (.refused e) => e.cause.message
  | unread (.originLacks field) => String.ofList (quoted field.toList)
  | failed (.fault cause _) => cause.message
  | failed (.unspelled name) => String.ofList (quoted name.toList)
  | failed .exhausted => "Too many jumps back."
  | failed .overflowed => "maximum recursion depth exceeded"

/-- Whether an error is none of the language, so that whoever feeds lines does not report it but fails with it. -/
def escapes : LineError → Bool
  | unread (.refused _) | failed (.fault ..) => false
  | unread (.originLacks _) | failed (.unspelled _) | failed .exhausted | failed .overflowed => true

/-- What is reported of an error, on one line. -/
def report (e : LineError) : List Chunk :=
  if e.escapes then [] else [⟨.err, e.title.toList ++ ": ".toList ++ e.message.toList ++ ['\n']⟩]

end LineError

structure Session where
  stack : Stack := []
  words : Words := {}
  /-- Whether the stack and the words are shown after each line. -/
  debug : Bool := false
  strict : Bool := false
  maxDepth : Int := 200
  host : Host := {}

/-- A line as it is fed to a session: its text, the file it is from and its number there. -/
structure Line where
  text : List Char
  file : Option String := none
  number : Int := 1

/-- What becomes of a line: the session after it, what was written, the tally of steps and why it failed, if it
did. -/
structure Executed where
  session : Session
  emissions : List Emission := []
  tally : Tally
  error? : Option LineError := none

def Executed.output (e : Executed) : List Chunk := e.emissions.map fun e => ⟨.out, e.text⟩

/-- Whether the line succeeded, unless its error escapes. -/
def Executed.result (e : Executed) : Except LineError Bool :=
  match e.error? with
  | none => .ok true
  | some error => if error.escapes then .error error else .ok false

namespace Session

def execute (s : Session) (line : Line) (verbosity : Nat) (tally : Tally) : Executed :=
  match Program.parse line.text line.file line.number with
  | .error e => { session := s, tally, error? := some (.unread e) }
  | .ok program =>
    let s := { s with words := s.words.insertAll (definitionsOf program) }
    let settings : Settings :=
      { words := s.words, strict := s.strict, maxDepth := s.maxDepth, verbosity, tally, host := s.host }
    let run := interpret settings program { stack := s.stack }
    let m := run.machine
    { session := { s with stack := m.stack }
      emissions := m.output
      tally := tally.advance m.steps
      error? := match run with
        | .done _ => none
        | .halted why _ => some (.failed why) }

/-- The stack and the dictionary as a debugging session shows them. -/
def dump (s : Session) : List Chunk :=
  [⟨.out, Colour.paint "90" "stack:".toList ++ [' ']⟩, ⟨.out, stackText s.stack ++ ['\n']⟩,
   ⟨.out, wordsText s.words⟩]

def dumpIfDebugging (s : Session) : List Chunk := if s.debug then s.dump else []

/-- Feeds a line to a session and says whether it succeeded.  An error is reported instead, unless it escapes. -/
def runLine (s : Session) (line : Line) : Session × List Chunk × Except LineError Bool :=
  let r := s.execute line 0 .off
  let report : List Chunk := match r.error? with
    | none => []
    | some e => e.report
  (r.session, r.output ++ report ++ r.session.dumpIfDebugging, r.result)

/-- Runs lines that follow each other in a file, from the given number on, and counts those that fail.  An error that
escapes ends it. -/
def runLines (s : Session) (file : Option String) :
    (number : Nat) → List (List Char) → Session × List Chunk × Except LineError Nat
  | _, [] => (s, [], .ok 0)
  | n, text :: texts =>
    match s.runLine ⟨text, file, n⟩ with
    | (s, output, .error e) => (s, output, .error e)
    | (s, output, .ok succeeded) =>
      let (s, outputs, failures) := s.runLines file (n + 1) texts
      (s, output ++ outputs, failures.map ((if succeeded then 0 else 1) + ·))

def load (s : Session) (source : List Char) (file : Option String) : Session × List Chunk × Except LineError Nat :=
  s.runLines file 1 (linesOf source)

/-- Forgets stack and dictionary; the settings stay. -/
def reset (s : Session) : Session := { s with stack := [], words := {} }

def top? (s : Session) : Option Value := s.stack.head?

/-- The stack from bottom to top, as plain values. -/
def toPlain (s : Session) : List Plain := s.stack.reverse.map Value.toPlain

/-- Pushes plain values up to the first that cannot be taken in. -/
def push (s : Session) : List Plain → Session × Option ConversionError
  | [] => (s, none)
  | p :: ps =>
    match p.toValue with
    | .ok v => push { s with stack := v :: s.stack } ps
    | .error e => (s, some e)

end Session

end Catena
