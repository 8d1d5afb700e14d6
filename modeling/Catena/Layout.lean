import Catena.Render
import Catena.Text.Colour
import Catena.Text.Pad
import Catena.Words

/-!
# Stack, program and dictionary as lines

A trace line is two fields of one width, the stack at the right end of the first and the rest of the program at the
left end of the second.  A text that is too long for its field is cut with an ellipsis: the stack keeps its top, the
program its beginning.
-/

namespace Catena

open Catena.Text

/-- The width of a field on a trace line. -/
def fieldWidth : Nat := 72

/-- What shows for an empty stack or program. -/
def nothing : List Char := ['∅']

/-- The values of a stack from bottom to top. -/
def stackText (s : Stack) : List Char :=
  if s.isEmpty then nothing else joinSpaced (s.reverse.map Value.render)

/-- The end of a text that is too long for its field, behind an ellipsis.  A field of less than two characters
drops what is missing from the front of the text instead. -/
def cutFront (width : Nat) (text : List Char) : List Char :=
  '…' :: ' ' :: text.drop (if width ≤ 2 then 2 - width else text.length - (width - 2))

/-- The beginning of a text that is too long for its field, before an ellipsis.  A field of less than two characters
drops what is missing from the end of the text instead. -/
def cutBack (width : Nat) (text : List Char) : List Char :=
  text.take (if width < 2 then text.length - (2 - width) else width - 2) ++ [' ', '…']

/-- The stack in a field of the given width, or as long as it is. -/
def stackField (width : Option Nat) (s : Stack) : List Char :=
  match width with
  | none => stackText s
  | some w => padLeft w (if w < (stackText s).length then cutFront w (stackText s) else stackText s)

/-- The text of a program, or a sign for an empty one. -/
def programText (program : Program) : List Char := if program.isEmpty then nothing else Program.render program

def programField (width : Nat) (program : Program) : List Char :=
  let text := programText program
  padRight width (if width < text.length then cutBack width text else text)

def divider : List Char := ' ' :: Colour.paint "36" " <=> ".toList ++ [' ']

/-- A stack beside the program that is to run on it. -/
def stateLine (width : Nat) (program : Program) (s : Stack) : List Char :=
  stackField (some width) s ++ divider ++ programField width program ++ ['\n']

def wordLine (name : String) (body : Program) : List Char :=
  Colour.paint "36" [':'] ++ ' ' :: Colour.paint "97" name.toList ++ ' ' :: Program.render body ++
    ' ' :: Colour.paint "36" [';'] ++ ['\n']

def wordsText (w : Words) : List Char :=
  if w.entries.isEmpty then Colour.paint "90" "(no words defined)".toList ++ ['\n']
  else w.entries.flatMap fun e => wordLine e.1 e.2

/-- The first builtin in the bodies of a dictionary that is referred to by a name of none. -/
def Words.textless? (w : Words) : Option String := w.entries.findSome? fun e => Program.textless? e.2

end Catena
