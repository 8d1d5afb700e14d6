import Catena.Text.Class

/-!
# Lines

A text is cut into lines in two ways.  `breakLines` cuts at every line break and keeps the break beside its line;
there is no empty line after a final break.  `feedLines` cuts at line feeds only, the way a stream is read line by
line once `unifyBreaks` has turned its carriage returns into line feeds.
-/

namespace Catena.Text

/-- Each line with the break that ends it, which is empty only on a last line without one. -/
def breakLines : List Char → List (List Char × List Char)
  | [] => []
  | '\r' :: '\n' :: r => ([], ['\r', '\n']) :: breakLines r
  | c :: r =>
    if isLineBreak c then ([], [c]) :: breakLines r
    else match breakLines r with
      | [] => [([c], [])]
      | (line, brk) :: ls => (c :: line, brk) :: ls

def linesOf (cs : List Char) : List (List Char) := (breakLines cs).map (·.1)

/-- The lines of a text, each followed by its break: together they are the text. -/
def fullLinesOf (cs : List Char) : List (List Char) := (breakLines cs).map fun l => l.1 ++ l.2

/-- Cutting a text into lines loses nothing. -/
theorem flatten_fullLinesOf (cs : List Char) : (fullLinesOf cs).flatten = cs := by
  unfold fullLinesOf
  fun_induction breakLines cs with
  | case1 => rfl
  | case2 r ih => simpa using ih
  | case3 c r _ h ih => simpa using ih
  | case4 c r _ h hr ih => simp_all
  | case5 c r _ h line brk ls hr ih => simp_all

/-- Carriage returns, alone or before a line feed, become line feeds. -/
def unifyBreaks : List Char → List Char
  | [] => []
  | '\r' :: '\n' :: r => '\n' :: unifyBreaks r
  | c :: r => (if c = '\r' then '\n' else c) :: unifyBreaks r

/-- The lines of a stream: cut at line feeds, without them. -/
def feedLines : List Char → List (List Char)
  | [] => []
  | c :: r =>
    if c = '\n' then [] :: feedLines r
    else match feedLines r with
      | [] => [[c]]
      | l :: ls => (c :: l) :: ls

def joinLines : List (List Char) → List Char
  | [] => []
  | [l] => l
  | l :: ls => l ++ '\n' :: joinLines ls

end Catena.Text
