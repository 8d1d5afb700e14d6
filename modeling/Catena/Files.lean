import Catena.Text.Line

/-!
# Files

A shell sees the file system through one function, from a path to what is there.  `Folder` is a working directory held
in memory, with its files given by relative names; the directories are those that the names mention.
-/

namespace Catena

inductive Entry where
  | file (text : List Char)
  | directory
  | missing
  /-- Something before the end of the path is a file. -/
  | blocked
  /-- The path or a part of it is longer than any can be. -/
  | overlong
deriving DecidableEq, Repr

inductive FileError where
  | isDirectory
  | missing
  | notDirectory
  | nameTooLong
deriving DecidableEq, Repr

def FileError.message : FileError → String
  | isDirectory => "Is a directory"
  | missing => "No such file or directory"
  | notDirectory => "Not a directory"
  | nameTooLong => "File name too long"

def Entry.read : Entry → Except FileError (List Char)
  | file text => .ok (Text.unifyBreaks text)
  | directory => .error .isDirectory
  | missing => .error .missing
  | blocked => .error .notDirectory
  | overlong => .error .nameTooLong

/-- A file system, as a function from paths. -/
abbrev Files := List Char → Entry

namespace Path

/-- The parts of a path between slashes; there is at least one. -/
def parts : List Char → List (List Char)
  | [] => [[]]
  | c :: r =>
    if c = '/' then [] :: parts r
    else match parts r with
      | [] => [[c]]
      | p :: ps => (c :: p) :: ps

/-- A part that leads somewhere: not empty and not a single dot. -/
def isStep (part : List Char) : Bool := part ≠ [] && part ≠ ['.']

def steps (path : List Char) : List (List Char) := (parts path).filter isStep

/-- The slashes that an absolute path starts with: one, unless there are exactly two. -/
def root : List Char → List Char
  | '/' :: '/' :: '/' :: _ => ['/']
  | '/' :: '/' :: _ => ['/', '/']
  | '/' :: _ => ['/']
  | _ => []

def join : List (List Char) → List Char
  | [] => []
  | [p] => p
  | p :: ps => p ++ '/' :: join ps

/-- Length of a path or a part of it, in bytes. -/
def size (cs : List Char) : Nat := cs.foldl (fun n c => n + c.utf8Size) 0

def maxPartSize : Nat := 255

def maxSize : Nat := 4095

/-- A path without empty parts, single dots and a slash at the end; steps upwards stay. -/
def normalize (path : List Char) : List Char :=
  match root path ++ join (steps path) with
  | [] => ['.']
  | p => p

end Path

/-- A directory with its files, each under the parts of its relative name. -/
structure Folder where
  files : List (List (List Char) × List Char) := []

namespace Folder

def ofFiles (files : List (List Char × List Char)) : Folder := ⟨files.map fun f => (Path.steps f.1, f.2)⟩

/-- Where a path has led to so far. -/
inductive Place where
  /-- A directory in the folder, or the folder itself. -/
  | inside (parts : List (List Char))
  /-- A directory above the folder, which holds nothing else that is known. -/
  | above
  | file (text : List Char)
  | missing
  | blocked
  | overlong

/-- One part further along a path. -/
def Place.enter (folder : Folder) (place : Place) (part : List Char) : Place :=
  match place with
  | missing => missing
  | blocked => blocked
  | overlong => overlong
  | file _ => blocked
  | above =>
    if !Path.isStep part || part = ['.', '.'] then above
    else if Path.maxPartSize < Path.size part then overlong
    else missing
  | inside parts =>
    if !Path.isStep part then inside parts
    else if part = ['.', '.'] then (if parts.isEmpty then above else inside parts.dropLast)
    else if Path.maxPartSize < Path.size part then overlong
    else
      let here := parts ++ [part]
      match folder.files.lookup here with
      | some text => file text
      | none => if folder.files.any fun f => here.isPrefixOf f.1 then inside here else missing

def entry (folder : Folder) (path : List Char) : Entry :=
  let start : Place :=
    if path = [] then .missing
    else if Path.maxSize < Path.size path then .overlong
    else if Path.root path = [] then .inside []
    else .above
  match (Path.parts path).foldl (Place.enter folder) start with
  | .file text => .file text
  | .inside _ | .above => .directory
  | .missing => .missing
  | .blocked => .blocked
  | .overlong => .overlong

end Folder

end Catena
