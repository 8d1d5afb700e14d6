import Catena.Shell.Runner

/-!
# The command line

`run` takes the arguments, the environment's say on debugging, standard input and the files to a runner that has done
what was asked, or to the reason why the arguments are refused; `Completed.outcome` is what the process shows of it.  In
plain mode the runner writes everything to standard output, without colours.  A runner from which an error has escaped
does not get to its end: what the host has to say of the error is not shown here.
-/

namespace Catena.Shell

open Catena.Text

structure Outcome where
  status : Nat
  out : List Char
  err : List Char
deriving DecidableEq, Repr

/-- What a command line comes to: help was asked for, its arguments were refused before or after a runner with the given
options was made, or a runner did what was asked. -/
inductive Completed where
  | helped
  | refused (error : UsageError)
  | refusedBy (options : Options) (error : UsageError)
  | ran (options : Options) (runner : Runner)

structure Invocation where
  arguments : List (List Char)
  debugVariable : Option (List Char) := none
  input : List Char := []
  /-- Whether standard input is a terminal. -/
  terminal : Bool := false
  files : Files
  host : Host := {}

def inputName : String := "<stdin>"

/-- The text of a script, and its name as a source. -/
def openScript (i : Invocation) (path : List Char) : Except UsageError (List Char × String) :=
  if path = ['-'] then .ok (unifyBreaks i.input, inputName)
  else match (i.files path).read with
    | .ok text => .ok (text, String.ofList path)
    | .error reason => .error (.unreadableScript path reason)

/-- The tokens that ask for actions: the first double dash only ends the options of the command itself. -/
def dropFirstDashes : List (List Char) → List (List Char)
  | [] => []
  | t :: ts => if t = "--".toList then ts else t :: dropFirstDashes ts

/-- The tokens before the first double dash, among which the command looks for its own option. -/
def ownOptions (tokens : List (List Char)) : List (List Char) := tokens.takeWhile (· ≠ "--".toList)

def asksHelp (tokens : List (List Char)) : Bool := (ownOptions tokens).contains "--help".toList

/-- Whether the option for help is given a value, which it does not take. -/
def givesHelpValue (tokens : List (List Char)) : Bool := (ownOptions tokens).any (startsWith "--help=")

def run (i : Invocation) : Completed :=
  let (globals, others) := sortArguments i.arguments
  match Options.ofGlobals globals i.debugVariable with
  | .error e => .refused e
  | .ok options =>
    let runner := Runner.ofOptions options i.files (feedLines (unifyBreaks i.input)) i.host
    match Request.ofArguments i.terminal others with
    | .loop => .ran options runner.loop
    | .script path =>
      match openScript i path with
      | .error e => .refused e
      | .ok (text, name) => .ran options ({ runner with input := [] }.runSource text name)
    | .actions tokens =>
      if givesHelpValue tokens then .refused .helpTakesNoValue
      else if asksHelp tokens then .helped
      else match actionsOf i.files (dropFirstDashes tokens) with
        | .error e => .refusedBy options e
        | .ok [] => .ran options runner.loop
        | .ok actions => .ran options (runner.act 1 actions)

/-- Whether running a command line takes anything from standard input. -/
def readsInput (i : Invocation) : Bool :=
  match Request.ofArguments i.terminal (sortArguments i.arguments).2 with
  | .loop => true
  | .script path => path = ['-']
  | .actions tokens =>
    match actionsOf i.files (dropFirstDashes tokens) with
    | .error _ => false
    | .ok actions => actions.isEmpty || actions.contains .loop

/-- Every path that running a command line may look up: those among the arguments, and the files that lines of standard
input ask to load. -/
def pathsOf (i : Invocation) : List (List Char) :=
  let asked (line : List Char) : Option (List Char) :=
    if startsWith ".load " (strip line) then some (strip ((strip line).drop 6)) else none
  let named := i.arguments ++ (feedLines (unifyBreaks i.input)).filterMap asked ++ [loopName.toList]
  named ++ named.map Path.normalize

/-- What a usage error says of the command that refuses the arguments. -/
def UsageError.heading (e : UsageError) : List Char :=
  match e.command? with
  | some (name, takes) => s!"Usage: {name} {takes}\nTry '{name} --help' for help.\n\n".toList
  | none => []

/-- The text of a usage error, in which control sequences have no place. -/
def UsageError.text (e : UsageError) : List Char :=
  e.heading ++ Colour.stripSequences ("Error: ".toList ++ e.subject.toList ++ e.message) ++ ['\n']

def helpText : List Char :=
  "Usage: arrfl run-dev [OPTIONS] [TOKENS]...\n\nOptions:\n  --help  Show this message and exit.\n".toList

def textOn (channel : Channel) (chunks : List Chunk) : List Char :=
  (chunks.filter (·.channel = channel)).flatMap (·.text)

def Outcome.ofChunks (status : Nat) (plain : Bool) (chunks : List Chunk) : Outcome :=
  if plain then ⟨status, chunks.flatMap fun c => Colour.strip c.text, []⟩
  else ⟨status, textOn .out chunks, textOn .err chunks⟩

/-- The exit status of a runner: one if an error has escaped, or if a line failed, unless failures are ignored. -/
def exitStatus (options : Options) (r : Runner) : Nat :=
  if r.escaped?.isSome || (r.failed && !options.ignore) then 1 else 0

/-- What a runner does at its end, which it reaches unless an error has escaped. -/
def Runner.finish (r : Runner) (milliseconds : Nat) : Runner :=
  if r.escaped?.isSome then r else r.writeStatistics milliseconds

/-- What a process shows at its end, after the given time. -/
def Completed.outcome (milliseconds : Nat) : Completed → Outcome
  | helped => ⟨0, helpText, []⟩
  | refused e => ⟨2, [], e.text⟩
  | refusedBy options e => .ofChunks 2 options.plain [⟨.err, e.text⟩]
  | ran options r =>
    .ofChunks (exitStatus options r) options.plain (r.finish milliseconds).written.reverse

end Catena.Shell
