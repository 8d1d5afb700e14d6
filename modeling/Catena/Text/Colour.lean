/-!
# Colour codes

Output for a terminal carries colour codes: an escape character, `[`, digits and semicolons, `m`.  `strip` removes
exactly these from a text; an escape character that opens no such code stays.
-/

namespace Catena.Text.Colour

def esc : Char := '\x1b'

def code (parameters : String) : List Char := esc :: '[' :: parameters.toList ++ ['m']

/-- Switches back to the terminal's own colour. -/
def reset : List Char := code "0"

/-- A text in a colour, with the colour reset after it. -/
def paint (parameters : String) (text : List Char) : List Char := code parameters ++ text ++ reset

def isParameter (c : Char) : Bool := ('0' ≤ c && c ≤ '9') || c = ';'

/-- How many characters after an escape character belong to a colour code; none if it opens no such code. -/
def codeLength : List Char → Nat
  | '[' :: r =>
    match r.dropWhile isParameter with
    | 'm' :: _ => (r.takeWhile isParameter).length + 2
    | _ => 0
  | _ => 0

/-- The same for any control sequence: parameters from `0` to `?`, then marks from the space to `/`, then one character
from `@` to `~`. -/
def sequenceLength : List Char → Nat
  | '[' :: r =>
    let marks := r.dropWhile fun c => '0' ≤ c && c ≤ '?'
    match marks.dropWhile fun c => ' ' ≤ c && c ≤ '/' with
    | c :: rest => if '@' ≤ c && c ≤ '~' then r.length - rest.length + 1 else 0
    | [] => 0
  | _ => 0

/-- Drops the given number of characters and then every sequence of a kind, which is told by its length. -/
def stripAfter (length : List Char → Nat) : Nat → List Char → List Char
  | _, [] => []
  | n + 1, _ :: r => stripAfter length n r
  | 0, c :: r =>
    if c = esc && length r ≠ 0 then stripAfter length (length r) r
    else c :: stripAfter length 0 r

def strip (text : List Char) : List Char := stripAfter codeLength 0 text

def stripSequences (text : List Char) : List Char := stripAfter sequenceLength 0 text

end Catena.Text.Colour
