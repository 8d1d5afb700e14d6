import Catena.Files
import Catena.Number.Notation
import Catena.Text.Colour
import Catena.Text.Pad

/-!
# Excerpts of a source

The report of an error shows the lines around it, two before and two after, each behind its number, and marks the
token to blame.
-/

namespace Catena

open Catena.Text

/-- What an excerpt is about: a line of a file, and a column and the text of a token if they are known. -/
structure Spot where
  file : Option String
  line : Option Int
  column : Option Int
  token : Option (List Char)

namespace Spot

/-- The line in question; the first one if none is known. -/
def shownLine (spot : Spot) : Int :=
  match spot.line with
  | some 0 | none => 1
  | some n => n

/-- The line with the token in it marked, if the column lies within the line. -/
def mark (spot : Spot) (content : List Char) : List Char :=
  match spot.column with
  | none => content
  | some column =>
    if 0 < column && column ≤ content.length then
      let before := column.toNat - 1
      let width := max 1 (spot.token.getD []).length
      content.take before ++ Colour.code "48;5;30" ++ Colour.paint "1;97" ((content.drop before).take width) ++
        content.drop (before + width)
    else content

/-- The line at an index behind its number, bright if it is the one in question. -/
def numbered (spot : Spot) (index : Nat) (content : List Char) : List Char :=
  let number := padLeft 5 (Number.intText (index + 1))
  if (index + 1 : Int) = spot.shownLine then
    Colour.paint "97" (number ++ " |".toList) ++ ' ' :: spot.mark content
  else Colour.paint "90" (number ++ " |".toList) ++ ' ' :: content

def heading (spot : Spot) : List Char :=
  Colour.paint "97" ("  File \"".toList ++ (spot.file.getD "None").toList ++ "\", line ".toList ++
    Number.intText spot.shownLine)

/-- The excerpt of the given lines, each of which may still end in a line feed. -/
def excerpt (spot : Spot) (lines : List (List Char)) : List Char :=
  let first := (spot.shownLine - 3).toNat
  let last := (spot.shownLine + 2).toNat
  let shown := ((lines.take last).zipIdx).drop first
  let texts := shown.map fun (l, i) => spot.numbered i (l.reverse.dropWhile (· = '\n')).reverse
  '\n' :: joinLines (spot.heading :: texts) ++ ['\n']

end Spot

inductive SourceError where
  | unnamed
  | unreadable (reason : FileError)
deriving DecidableEq, Repr

def SourceError.message : SourceError → String
  | unnamed => "expected str, bytes or os.PathLike object, not NoneType"
  | unreadable reason => reason.message

/-- The lines of a source that an excerpt is taken from.  A source without any text is looked up as a file. -/
def sourceLines (files : Files) (file : Option String) : List Char → Except SourceError (List (List Char))
  | [] =>
    match file with
    | none => .error .unnamed
    | some name =>
      match (files name.toList).read with
      | .ok text => .ok (feedLines text)
      | .error reason => .error (.unreadable reason)
  | text => .ok (fullLinesOf text)

end Catena
