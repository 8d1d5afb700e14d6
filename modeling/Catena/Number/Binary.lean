/-!
# Binary numbers of double precision

A finite magnitude is `mantissa * 2 ^ exponent`.  Its bit pattern without the sign grows with the magnitude, and
`pattern` and `Binary.ofPattern` pass between the two.  `nearest` is the pattern of the number nearest to a fraction,
a fraction halfway between two numbers going to the one with the even mantissa; all of it is arithmetic of naturals.
-/

namespace Catena.Number

def pow2 (n : Nat) : Nat := Nat.pow 2 n

def pow10 (n : Nat) : Nat := Nat.pow 10 n

/-- The magnitude `mantissa * 2 ^ exponent`. -/
structure Binary where
  mantissa : Nat
  exponent : Int
deriving DecidableEq, Repr

/-- The exponent of the smallest numbers, whose mantissas are not filled up. -/
def leastExponent : Int := -1074

/-- The pattern of infinity, above those of all finite magnitudes. -/
def infinitePattern : Nat := 0x7FF * pow2 52

/-- The pattern that stands for no number. -/
def undefinedPattern : Nat := infinitePattern + pow2 51

/-- The magnitude with a finite pattern. -/
def Binary.ofPattern (p : Nat) : Binary :=
  if p < pow2 52 then ⟨p, leastExponent⟩
  else ⟨pow2 52 + p % pow2 52, (p / pow2 52 : Nat) - 1 + leastExponent⟩

/-- The pattern of a magnitude.  A mantissa of `2 ^ 53` carries into the exponent. -/
def Binary.pattern (b : Binary) : Nat := (b.exponent - leastExponent).toNat * pow2 52 + b.mantissa

def Binary.numerator (b : Binary) : Nat := b.mantissa * pow2 b.exponent.toNat

def Binary.denominator (b : Binary) : Nat := pow2 (-b.exponent).toNat

/-- The quotient rounded to the nearest natural number, a half going to the even one. -/
def roundHalfEven (num den : Nat) : Nat :=
  let q := num / den
  let twice := 2 * (num % den)
  if twice < den then q else if den < twice then q + 1 else q + q % 2

/-- The exponent with which the mantissa nearest to a positive fraction has 53 binary digits, or the least one. -/
def exponentOf (num den : Nat) : Int :=
  let e : Int := (Nat.log2 num : Int) - Nat.log2 den - 53
  let e := if den * pow2 e.toNat * pow2 53 ≤ num * pow2 (-e).toNat then e + 1 else e
  max e leastExponent

/-- The pattern of the number nearest to a fraction. -/
def nearest (num den : Nat) : Nat :=
  if num = 0 then 0
  else
    let e := exponentOf num den
    let b : Binary := ⟨roundHalfEven (num * pow2 (-e).toNat) (den * pow2 e.toNat), e⟩
    min b.pattern infinitePattern

/-- The pattern of a number without its sign. -/
def patternOf (x : Float) : Nat := x.toBits.toNat % pow2 63

/-- Whether the sign of a number, zeros included, is set. -/
def isNegative (x : Float) : Bool := pow2 63 ≤ x.toBits.toNat

def ofPattern (negative : Bool) (p : Nat) : Float :=
  Float.ofBits (UInt64.ofNat (if negative then pow2 63 + p else p))

def isFinite (x : Float) : Bool := patternOf x < infinitePattern

/-- The whole part of a finite number's magnitude. -/
def wholePart (x : Float) : Nat :=
  let b := Binary.ofPattern (patternOf x)
  b.numerator / b.denominator

/-- Whether a finite number has no fractional part. -/
def isWhole (x : Float) : Bool :=
  let b := Binary.ofPattern (patternOf x)
  b.numerator % b.denominator = 0

/-- A finite number cut off towards zero; no other number is cut off to anything but zero. -/
def truncate (x : Float) : Int :=
  if isFinite x then (if isNegative x then -(wholePart x : Int) else wholePart x) else 0

/-- The number nearest to an integer, unless it is out of range. -/
def ofInt? (n : Int) : Option Float :=
  let p := nearest n.natAbs 1
  if p < infinitePattern then some (ofPattern (n < 0) p) else none

end Catena.Number
