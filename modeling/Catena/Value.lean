import Catena.Number.Binary

/-!
# Values

A value is a one-dimensional array, either of numbers or of characters; there are no scalars, a number is a numeric
array of length one.  A stack is a list of values with the top first.
-/

namespace Catena

inductive Variant where
  | numeric
  | character
deriving DecidableEq, Repr

def Variant.name : Variant → String
  | .numeric => "numeric"
  | .character => "character"

/-- Name of a variant as a sort of value. -/
def Variant.title : Variant → String
  | .numeric => "Numeric"
  | .character => "Character"

/-- A one-dimensional array of numbers or of characters. -/
inductive Value where
  | numeric (items : List Float)
  | character (items : List Char)
deriving DecidableEq

/-- A stack of values, the top first. -/
abbrev Stack := List Value

namespace Value

/-- The array that holds a single number. -/
def scalar (x : Float) : Value := numeric [x]

def variant : Value → Variant
  | numeric _ => .numeric
  | character _ => .character

def length : Value → Nat
  | numeric xs => xs.length
  | character cs => cs.length

/-- The numbers in an array; an array of characters has none. -/
def numbers : Value → List Float
  | numeric xs => xs
  | character _ => []

def split : Value → List Value
  | numeric xs => xs.map fun x => numeric [x]
  | character cs => cs.map fun c => character [c]

/-- Equality of variant, length and items.  Items compare as numbers do, so that the two zeros are equal and an
undefined number differs from itself. -/
def same : Value → Value → Bool
  | numeric xs, numeric ys => xs.length == ys.length && (xs.zip ys).all fun (x, y) => x == y
  | character cs, character ds => cs == ds
  | _, _ => false

/-- A condition holds if one of its numbers is positive. -/
def holds (v : Value) : Bool := v.numbers.any fun x => 0 < x

end Value

end Catena
