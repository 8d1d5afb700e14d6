import Catena.Excerpt
import Catena.Session
import Catena.Shell.Arguments

/-!
# Runners

A runner feeds files, inline code and the lines of an interactive loop to one session.  It keeps the sources of what it
ran, so that the report of an error can show the lines around it, and goes on after a line that failed.  After an error
that escapes it does nothing more.
-/

namespace Catena.Shell

open Catena.Text

def loopName : String := "<REPL>"

/-- Lines of the sources that were run, by name. -/
abbrev Sources := List (String × List (List Char))

def Sources.set (sources : Sources) (name : String) (lines : List (List Char)) : Sources :=
  (name, lines) :: sources.filter (·.1 ≠ name)

/-- The lines of a source; one that was never run has none. -/
def Sources.lines (sources : Sources) (name : String) : List (List Char) := (sources.lookup name).getD []

structure Runner where
  session : Session
  verbosity : Nat := 0
  tally : Tally := .off
  files : Files
  sources : Sources := []
  /-- The lines of the interactive loop, once a file of the same name has taken their place among the sources. -/
  history? : Option (List (List Char)) := none
  /-- Lines of standard input that are still to come. -/
  input : List (List Char) := []
  failed : Bool := false
  /-- The error that has escaped, which the runner fails with. -/
  escaped? : Option LineError := none
  executed : Nat := 0
  /-- What has been written, the newest first. -/
  written : List Chunk := []

namespace Runner

def ofOptions (options : Options) (files : Files) (input : List (List Char)) (host : Host := {}) : Runner where
  session := { debug := options.debug, strict := options.strict, maxDepth := options.maxDepth, host }
  verbosity := options.verbosity
  tally := if options.stats then .reached 0 else .off
  files := files
  input := input

def write (r : Runner) (chunks : List Chunk) : Runner := { r with written := chunks.reverse ++ r.written }

def say (r : Runner) (text : List Char) : Runner := r.write [⟨.out, text ++ ['\n']⟩]

/-! ### Reports -/

/-- A report: a banner, a sentence on the error and its context. -/
def report (banner : String) (sentence context : List Char) : Chunk :=
  ⟨.err, Colour.paint "30;43" (' ' :: banner.toList ++ [' ']) ++ ' ' :: sentence ++ '\n' :: context ++ ['\n']⟩

/-- The title of an error after a sentence on it. -/
def titled (sentence : List Char) (title : String) : List Char :=
  sentence ++ " (Exception: ".toList ++ Colour.paint "33" title.toList ++ [')']

/-- The lines that an excerpt of a source is taken from. -/
def excerptLines (r : Runner) (name : String) : List (List Char) :=
  (sourceLines r.files (some name) (joinLines (r.sources.lines name))).toOption.getD []

def reportRefusal (r : Runner) (file : String) (e : ParseError) : List Chunk :=
  let spot : Spot := ⟨some file, some e.start.line, some e.start.column, some e.cause.token⟩
  let sentence := "Parsing `".toList ++ Colour.paint "97" file.toList ++ "` caused a problem!".toList
  let message := e.cause.message.toList.map fun c => if c = '\n' || c = '\t' then ' ' else c
  let context := spot.excerpt (r.excerptLines file) ++ '\n' :: Colour.paint "90" message ++ ['\n']
  [report "SYNTAX ERROR." (titled sentence e.cause.title) context]

def bannerOf : Category → String
  | .stack => "STACK ERROR."
  | .type | .value => "TYPE ERROR."
  | _ => "RUNTIME ERROR."

/-- The lines around the token that a fault is blamed on, if its source is known. -/
def faultContext (r : Runner) (blame : Blame) : List Char :=
  match blame.origin.file, blame.origin.line with
  | some (some file), some line =>
    if joinLines (r.sources.lines file) = [] || line = 0 then []
    else
      let token := blame.origin.text.getD blame.token
      Spot.excerpt ⟨some file, some line, blame.origin.column, some token.toList⟩ (r.excerptLines file)
  | _, _ => []

/-- The report of a fault, with the stack that it left. -/
def reportFault (r : Runner) (cause : Fault) (blame : Blame) : List Chunk :=
  let sentence := "Token ".toList ++ Colour.paint "1;97" ('`' :: blame.token.toList ++ ['`']) ++
    " failed: ".toList ++ cause.message.toList
  [report (bannerOf cause.category) (titled sentence cause.category.title) (r.faultContext blame),
   ⟨.err, Colour.code "1;33" ++ "  Stack content is".toList ++ Colour.code "0;33" ++ "\n    ".toList⟩,
   ⟨.err, stackText blame.stack ++ ['\n']⟩,
   ⟨.err, Colour.reset ++ ['\n']⟩]

/-- An error that escapes is not reported. -/
def reportError (r : Runner) (file : String) : LineError → List Chunk
  | .unread (.refused e) => r.reportRefusal file e
  | .failed (.fault cause blame) => r.reportFault cause blame
  | _ => []

/-! ### Lines and files -/

/-- Takes note of an error: the runner has failed and reports it, unless it escapes. -/
def fail (r : Runner) (file : String) (error : LineError) : Runner :=
  if error.escapes then { r with escaped? := some error }
  else { r with failed := true }.write (r.reportError file error)

/-- Feeds a line to the session, reports it if it fails, and says whether it succeeded.  On request the top of the
stack is shown after a line that did. -/
def runLine (r : Runner) (text : List Char) (file : String) (number : Int) (showTop : Bool) : Runner × Bool :=
  let e := r.session.execute ⟨text, some file, number⟩ r.verbosity r.tally
  let r := { r with session := e.session, tally := e.tally }.write e.output
  let r := match e.error? with
    | some error => r.fail file error
    | none =>
      let r := { r with executed := r.executed + 1 }
      match showTop, r.session.top? with
      | true, some v => r.say v.render
      | _, _ => r
  (r.write r.session.dumpIfDebugging, e.error?.isNone)

/-- Feeds the lines of a file to the session, from the given number on. -/
def runLines (file : String) : (number : Nat) → List (List Char) → Runner → Runner
  | _, [], r => r
  | n, text :: texts, r =>
    let r := (r.runLine text file n false).1
    if r.escaped?.isSome then r else runLines file (n + 1) texts r

def history (r : Runner) : List (List Char) := r.history?.getD (r.sources.lines loopName)

/-- Makes the lines of a text the source of the given name.  If it takes the place of the interactive loop's, the
loop keeps its own. -/
def setSource (r : Runner) (name : String) (lines : List (List Char)) : Runner :=
  { r with
    sources := r.sources.set name lines
    history? := if name = loopName then some r.history else r.history? }

def runSource (r : Runner) (source : List Char) (name : String) : Runner :=
  runLines name 1 (linesOf source) (r.setSource name (linesOf source))

/-- Runs a file; one that cannot be read is reported. -/
def loadFile (r : Runner) (path : List Char) : Runner :=
  match (r.files (Path.normalize path)).read with
  | .ok source => r.runSource source (String.ofList path)
  | .error reason =>
    r.write [report "LOAD ERROR."
      ("Cannot read `".toList ++ Colour.paint "97" path ++ "`: ".toList ++ reason.message.toList ++ ['.']) []]

/-- Runs code that was given inline under a name, and shows the top of the stack after it. -/
def runCode (r : Runner) (code : List Char) (name : String) : Runner :=
  ((r.setSource name [code]).runLine code name 1 true).1

/-! ### The interactive loop -/

def guide : List Char :=
  '\n' :: Colour.paint "97" "Definitions".toList ++
    "
  : name body ;   Define the word `name`, evaluated whenever `name` appears.
  [ 1 2 3 ]       Numeric array literal.  A single number needs no brackets.
  \"text\"          Character array literal.
  # comment       Ignore the rest of the line.

".toList ++ Colour.paint "97" "Shell".toList ++
    "
  .load FILE      Run every line of FILE.
  .debug          Toggle showing the stack and words after each line.
  .words          Show the defined words.
  .quit           Leave the REPL.
".toList

/-- The help: every builtin with its spellings, and a guide. -/
def help : List Char :=
  let line (b : Builtin) : List Char :=
    "  ".toList ++ padRight 14 (joinSpaced (b.spellings.map String.toList)) ++ "  ".toList ++ b.summary.toList ++ ['\n']
  Colour.paint "97" "Builtins".toList ++ '\n' :: Builtin.all.flatMap line ++ guide

/-- Obeys a command of the loop, and says whether the loop goes on. -/
def command (r : Runner) (line : List Char) : Runner × Bool :=
  let name := String.ofList (line.takeWhile (· ≠ ' '))
  let argument := strip ((line.dropWhile (· ≠ ' ')).drop 1)
  match name with
  | ".quit" | "quit" | "exit" => (r, false)
  | ".debug" =>
    let on := !r.session.debug
    ({ r with session := { r.session with debug := on } }.say
      (Colour.paint "90" ("debug ".toList ++ (if on then "on" else "off").toList)), true)
  | ".load" =>
    if argument.isEmpty then (r.say (Colour.paint "90" "usage: .load FILE".toList), true)
    else (r.loadFile argument, true)
  | ".words" => (r.write [⟨.out, wordsText r.session.words⟩], true)
  | ".help" => (r.write [⟨.out, help⟩], true)
  | _ =>
    (r.say (Colour.paint "90" ("unknown command `".toList ++ name.toList ++ "`, try .help".toList)), true)

/-- Whether a line of the loop, which has no blanks at its ends, is a command. -/
def isCommand (line : List Char) : Bool :=
  line.head? = some '.' || line = "quit".toList || line = "exit".toList

/-- Takes up a line of the loop as code. -/
def remember (r : Runner) (line : List Char) : Runner :=
  match r.history? with
  | some lines => { r with history? := some (lines ++ [line]) }
  | none => { r with sources := r.sources.set loopName (r.sources.lines loopName ++ [line]) }

/-- Handles a line of the loop, and says whether the loop goes on. -/
def answer (r : Runner) (line : List Char) : Runner × Bool :=
  let stripped := strip line
  if stripped.isEmpty then (r, true)
  else if isCommand stripped then r.command stripped
  else
    let r := r.remember line
    let (r, ok) := r.runLine line loopName r.history.length false
    match ok, r.session.top? with
    | true, some v => (r.say (Colour.paint "90" ">>>".toList ++ ' ' :: v.render), true)
    | _, _ => (r, true)

def prompt : Chunk := ⟨.out, Colour.paint "36" "<<< ".toList⟩

/-- Handles lines until one ends the loop, an error escapes or there are no more; the lines after that stay for the next
loop. -/
def answerAll (r : Runner) : List (List Char) → Runner
  | [] => { r with input := [] }.write [prompt, ⟨.out, ['\n']⟩]
  | line :: lines =>
    let (r, goesOn) := (r.write [prompt]).answer line
    if goesOn && r.escaped?.isNone then r.answerAll lines else { r with input := lines }

def loop (r : Runner) : Runner :=
  let r := r.say "arrfl - Array stack language REPL; type .help for builtins, Ctrl+C to exit.".toList
  { r with sources := r.sources.set loopName (r.sources.lines loopName), history? := none }.answerAll r.input

/-! ### Actions -/

/-- The name of inline code as a source. -/
def codeName (number : Nat) : String := "<INPUT_" ++ String.ofList (Nat.toDigits 10 number) ++ ">"

/-- Does a thing; inline code has the given number. -/
def perform (r : Runner) (number : Nat) : Action → Runner
  | .file path => r.loadFile path
  | .code text => r.runCode text (codeName number)
  | .loop => r.loop

/-- The number of the next inline code after an action. -/
def nextNumber (number : Nat) : Action → Nat
  | .code _ => number + 1
  | .file _ | .loop => number

/-- Does things one after the other until an error escapes; inline code is numbered from `number` on. -/
def act : (number : Nat) → List Action → Runner → Runner
  | _, [], r => r
  | n, action :: actions, r =>
    let r := r.perform n action
    if r.escaped?.isSome then r else act (nextNumber n action) actions r

/-- Milliseconds as seconds with three places. -/
def secondsText (milliseconds : Nat) : List Char :=
  let places := Nat.toDigits 10 (milliseconds % 1000)
  Nat.toDigits 10 (milliseconds / 1000) ++ '.' :: List.replicate (3 - places.length) '0' ++ places ++ ['s']

/-- Writes the statistics, if they were asked for and a line succeeded. -/
def writeStatistics (r : Runner) (milliseconds : Nat) : Runner :=
  match r.tally.count? with
  | none => r
  | some steps =>
    if r.executed = 0 then r
    else ((r.say ('\n' :: Colour.code "97" ++ Colour.paint "48;5;30" " STATISTICS. ".toList)).say
      ("step\t".toList ++ Colour.paint "97" (grouped steps))).say
      ("time\t".toList ++ Colour.paint "97" (secondsText milliseconds))

end Runner

end Catena.Shell
