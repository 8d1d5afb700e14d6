import Catena.Files
import Catena.Number.Reader
import Catena.Number.Notation
import Catena.Text.Blank
import Catena.Text.Quoted

/-!
# Command-line arguments

Global options may stand anywhere among the arguments: `sortArguments` takes them out, in order, and leaves the rest,
which says what to run.  The rest is a script, a request for the interactive loop, or a list of actions
(`actionsOf`).
-/

namespace Catena.Shell

open Catena.Text

def startsWith (beginning : String) (text : List Char) : Bool := beginning.toList.isPrefixOf text

/-- The options without a value that may stand anywhere. -/
def flags : List String := ["--debug", "-d", "--strict", "--ignore", "-i", "--stats", "--plain", "-p"]

/-- A dash followed by nothing but the letter that asks for a trace, at least once. -/
def isVerbose : List Char → Bool
  | '-' :: vs => !vs.isEmpty && vs.all (· = 'v')
  | _ => false

/-- A global option that is an argument by itself. -/
def isGlobal (argument : List Char) : Bool :=
  flags.contains (String.ofList argument) || isVerbose argument || startsWith "--max-depth=" argument

/-- The global options among the arguments, and the other arguments.  An option that waits for its value takes the
next argument along, whatever that is. -/
def sortArguments : List (List Char) → List (List Char) × List (List Char)
  | [] => ([], [])
  | [a] => if isGlobal a then ([a], []) else ([], [a])
  | a :: b :: rest =>
    if isGlobal a then
      let (globals, others) := sortArguments (b :: rest)
      (a :: globals, others)
    else if a = "--max-depth".toList then
      let (globals, others) := sortArguments rest
      (a :: b :: globals, others)
    else
      let (globals, others) := sortArguments (b :: rest)
      (globals, a :: others)

inductive Request where
  | script (path : List Char)
  | loop
  | actions (tokens : List (List Char))
deriving DecidableEq, Repr

/-- What the arguments other than global options ask for.  Without any that is the interactive loop, if standard input
is a terminal, and else the script that is read from there. -/
def Request.ofArguments (terminal : Bool) : List (List Char) → Request
  | [] => if terminal then .loop else .script ['-']
  | [a] =>
    if a = "--repl".toList then .loop
    else if a = ['-'] || a.head? ≠ some '-' then .script a
    else .actions [a]
  | as => .actions as

inductive UsageError where
  | depthNotPositive (value : Int)
  | depthNotInteger (text : List Char)
  | debugNotBoolean (text : List Char)
  | unreadableScript (path : List Char) (reason : FileError)
  | missingCode
  | emptyCode
  | unknownOption (token : List Char)
  | fileNotFound (token : List Char)
  | pathTooLong
  | helpTakesNoValue
deriving DecidableEq, Repr

namespace UsageError

def message : UsageError → List Char
  | depthNotPositive n => Number.intText n ++ " is not in the range x>=1.".toList
  | depthNotInteger text => quoted text ++ " is not a valid integer range.".toList
  | debugNotBoolean text =>
    quoted text ++
      " is not a valid boolean. Recognized values: , 0, 1, f, false, n, no, off, on, t, true, y, yes".toList
  | unreadableScript path reason => '\x27' :: path ++ "': ".toList ++ reason.message.toList
  | missingCode => "Missing inline code after -c/--command option.".toList
  | emptyCode => "Empty code supplied to command option.".toList
  | unknownOption token => "Unknown option `".toList ++ token ++ "`.".toList
  | fileNotFound token => "File `".toList ++ token ++ "` not found.".toList
  | pathTooLong => FileError.nameTooLong.message.toList
  | helpTakesNoValue => "Option '--help' does not take a value.".toList

/-- What the message is about, in front of it. -/
def subject : UsageError → String
  | depthNotPositive _ | depthNotInteger _ => "Invalid value for '--max-depth': "
  | debugNotBoolean _ => "Invalid value for '--debug' / '-d': "
  | unreadableScript .. => "Invalid value for 'SCRIPT': "
  | missingCode | emptyCode | unknownOption _ | fileNotFound _ => "Invalid value: "
  | pathTooLong | helpTakesNoValue => ""

/-- The command that refuses the arguments, and what it takes; what no command ever looks at names none. -/
def command? : UsageError → Option (String × String)
  | depthNotPositive _ | depthNotInteger _ | debugNotBoolean _ => some ("arrfl", "[OPTIONS] [COMMAND] [ARGS]...")
  | unreadableScript .. => some ("arrfl run-file", "[OPTIONS] SCRIPT")
  | missingCode | emptyCode | unknownOption _ | fileNotFound _ => some ("arrfl run-dev", "[OPTIONS] [TOKENS]...")
  | pathTooLong | helpTakesNoValue => none

end UsageError

structure Options where
  verbosity : Nat := 0
  debug : Bool := false
  strict : Bool := false
  maxDepth : Int := 200
  ignore : Bool := false
  stats : Bool := false
  plain : Bool := false
deriving DecidableEq, Repr

/-- The value of the last option that limits the depth. -/
def depthText? : List (List Char) → Option (List Char)
  | [] => none
  | a :: rest =>
    if startsWith "--max-depth=" a then (depthText? rest).or (some (a.drop "--max-depth=".length))
    else if a = "--max-depth".toList then
      match rest with
      | [] => none
      | v :: rest => (depthText? rest).or (some v)
    else depthText? rest

/-- The global options other than the limit on the depth, which takes its value with it. -/
def switches : List (List Char) → List (List Char)
  | [] => []
  | [a] => if startsWith "--max-depth" a then [] else [a]
  | a :: b :: rest =>
    if a = "--max-depth".toList then switches rest
    else if startsWith "--max-depth=" a then switches (b :: rest)
    else a :: switches (b :: rest)

/-- The limit on the depth, which has to be a positive integer. -/
def readDepth : Option (List Char) → Except UsageError Int
  | none => .ok 200
  | some text =>
    match Number.intOfText? text with
    | none => .error (.depthNotInteger text)
    | some n => if n < 1 then .error (.depthNotPositive n) else .ok n

/-- The value of the variable that asks for debugging. -/
def readDebug (text : List Char) : Except UsageError Bool :=
  let word := String.ofList ((strip text).map Char.toLower)
  if ["1", "on", "t", "true", "y", "yes"].contains word then .ok true
  else if ["", "0", "off", "f", "false", "n", "no"].contains word then .ok false
  else .error (.debugNotBoolean text)

/-- The options that global arguments and the environment choose.  The variable counts only without its option. -/
def Options.ofGlobals (globals : List (List Char)) (debugVariable : Option (List Char)) :
    Except UsageError Options := do
  let maxDepth ← readDepth (depthText? globals)
  let given := switches globals
  let has (flag : String) : Bool := given.contains flag.toList
  let debug ← if has "--debug" || has "-d" then .ok true else readDebug (debugVariable.getD [])
  return {
    verbosity := (given.filter isVerbose).foldl (fun n a => n + (a.length - 1)) 0
    debug
    strict := has "--strict"
    maxDepth
    ignore := has "--ignore" || has "-i"
    stats := has "--stats"
    plain := has "--plain" || has "-p" }

inductive Action where
  | file (path : List Char)
  | code (text : List Char)
  | loop
deriving DecidableEq, Repr

/-- What a single token asks for: nothing, an action, or code that is the next token. -/
inductive Item where
  | nothing
  | action (a : Action)
  | codeNext
deriving DecidableEq, Repr

def valueOf (token : List Char) : List Char := (token.dropWhile (· ≠ '=')).drop 1

/-- Reads a token that is no value of the one before it. -/
def itemOf (files : Files) (token : List Char) : Except UsageError Item :=
  if token = "--".toList then .ok .nothing
  else if token = "-c".toList || token = "--command".toList then .ok .codeNext
  else if startsWith "-c=" token || startsWith "--command=" token then
    if valueOf token = [] then .error .emptyCode else .ok (.action (.code (valueOf token)))
  else if token = "-r".toList || token = "--repl".toList then .ok (.action .loop)
  else if token.head? = some '-' then .error (.unknownOption token)
  else match files (Path.normalize token) with
    | .file _ | .directory => .ok (.action (.file (Path.normalize token)))
    | .missing | .blocked => .error (.fileNotFound token)
    | .overlong => .error .pathTooLong

def actionsOf (files : Files) : List (List Char) → Except UsageError (List Action)
  | [] => .ok []
  | [token] =>
    match itemOf files token with
    | .error e => .error e
    | .ok .nothing => .ok []
    | .ok (.action a) => .ok [a]
    | .ok .codeNext => .error .missingCode
  | token :: next :: rest =>
    match itemOf files token with
    | .error e => .error e
    | .ok .nothing => actionsOf files (next :: rest)
    | .ok (.action a) => (actionsOf files (next :: rest)).map (a :: ·)
    | .ok .codeNext => (actionsOf files rest).map (.code next :: ·)

end Catena.Shell
