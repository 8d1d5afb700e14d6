import Catena.Text.Formless

/-!
# Quoted names in messages

A message that names something a user typed quotes it: in single quotes, unless the name holds a single quote and no
double quote.  The quote in use, the backslash and every character without a printed form are escaped.
-/

namespace Catena.Text

/-- A number in base sixteen, filled up with zeros to the given width. -/
def hexText (width n : Nat) : List Char :=
  let digits := Nat.toDigits 16 n
  List.replicate (width - digits.length) '0' ++ digits

/-- A character as it stands between quotes of the given kind. -/
def escapeChar (quote c : Char) : List Char :=
  if c = quote || c = '\\' then ['\\', c]
  else if c = '\n' then ['\\', 'n']
  else if c = '\r' then ['\\', 'r']
  else if c = '\t' then ['\\', 't']
  else if !isFormless c then [c]
  else if c.toNat ≤ 0xFF then '\\' :: 'x' :: hexText 2 c.toNat
  else if c.toNat ≤ 0xFFFF then '\\' :: 'u' :: hexText 4 c.toNat
  else '\\' :: 'U' :: hexText 8 c.toNat

def quoted (name : List Char) : List Char :=
  let quote := if name.contains '\x27' && !name.contains '"' then '"' else '\x27'
  quote :: name.flatMap (escapeChar quote) ++ [quote]

end Catena.Text
