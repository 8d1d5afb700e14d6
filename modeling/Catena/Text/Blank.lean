import Catena.Text.Class

/-!
# Trimming and splitting at blanks

`trimBoth p` drops the characters in the class `p` from both ends of a text, `strip` does so for blanks, and
`fields` lists the maximal runs of non-blank characters.
-/

namespace Catena.Text

def trimEnd (p : Char → Bool) (cs : List Char) : List Char := (cs.reverse.dropWhile p).reverse

def trimBoth (p : Char → Bool) (cs : List Char) : List Char := trimEnd p (cs.dropWhile p)

def strip (cs : List Char) : List Char := trimBoth isBlank cs

/-- The maximal non-blank runs of a text, in order. -/
def fields : List Char → List (List Char)
  | [] => []
  | [c] => if isBlank c then [] else [[c]]
  | c :: d :: r =>
    if isBlank c then fields (d :: r)
    else if isBlank d then [c] :: fields (d :: r)
    else match fields (d :: r) with
      | w :: ws => (c :: w) :: ws
      | [] => [[c]]

/-- Texts set side by side with a single space between neighbours. -/
def joinSpaced : List (List Char) → List Char
  | [] => []
  | [t] => t
  | t :: ts => t ++ ' ' :: joinSpaced ts

end Catena.Text
