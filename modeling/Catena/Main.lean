import Catena.Shell.Command

/-!
# The program

Gathers what a command line may look at (the files it names, standard input, the environment), runs it and writes
what it shows.
-/

namespace Catena.Shell

/-- What the file system has at a path. -/
def entryAt (path : List Char) : IO Entry := do
  try
    return .file (← IO.FS.readFile (String.ofList path)).toList
  catch e =>
    match e with
    | .inappropriateType _ code _ => return if code = 21 then .directory else .blocked
    | .invalidArgument .. => return .overlong
    | _ => return .missing

/-- The files at the given paths, read once. -/
def gather (paths : List (List Char)) : IO Files := do
  let entries ← paths.eraseDups.mapM fun path => return (path, ← entryAt path)
  return fun path => (entries.lookup path).getD .missing

end Catena.Shell

open Catena Catena.Shell

def main (args : List String) : IO UInt32 := do
  let start ← IO.monoMsNow
  let debugVariable := (← IO.getEnv "ARRFL_DEBUG").map String.toList
  let terminal ← (← IO.getStdin).isTty
  let blind : Invocation :=
    { arguments := args.map String.toList, debugVariable, terminal, files := fun _ => .missing }
  let silent := { blind with files := ← gather (pathsOf blind) }
  let input ← if readsInput silent then (← IO.getStdin).readToEnd else pure ""
  let given := { silent with input := input.toList }
  let completed := Shell.run { given with files := ← gather (pathsOf given) }
  let outcome := completed.outcome ((← IO.monoMsNow) - start)
  (← IO.getStdout).putStr (String.ofList outcome.out)
  (← IO.getStderr).putStr (String.ofList outcome.err)
  return outcome.status.toUInt32
