import Catena.Number.Decimal

/-!
# How numbers are written

Whole numbers below 10^16 are written as integers.  Any other number is written with the fewest digits that read
back as it: positionally while the exponent of its leading digit lies between -4 and 15, and with an exponent of at
least two digits beyond.
-/

namespace Catena.Number

/-- Leading digits with the exponent of the first of them, zeros at the end dropped. -/
def significant (d : Decimal) : List Char × Int :=
  let ds := Nat.toDigits 10 d.digits
  ((ds.reverse.dropWhile (· = '0')).reverse, d.exponent + ds.length - 1)

/-- Digits with a decimal point after the first `whole` of them, filled up with zeros on both sides of it. -/
def positional (ds : List Char) (lead : Int) : List Char :=
  if 0 ≤ lead then
    let whole := lead.toNat + 1
    let fraction := ds.drop whole
    ds.take whole ++ List.replicate (whole - ds.length) '0' ++ '.' :: (if fraction.isEmpty then ['0'] else fraction)
  else '0' :: '.' :: List.replicate ((-lead).toNat - 1) '0' ++ ds

/-- Digits with a point after the first, if there are more, and the exponent of the first. -/
def scientific (ds : List Char) (lead : Int) : List Char :=
  let exponent := Nat.toDigits 10 lead.natAbs
  ds.take 1 ++ (if ds.length ≤ 1 then [] else '.' :: ds.drop 1) ++
    'e' :: (if lead < 0 then '-' else '+') :: List.replicate (2 - exponent.length) '0' ++ exponent

/-- The exact text of a magnitude: no other number of double precision is read from it. -/
def magnitudeText (p : Nat) : List Char :=
  if p = 0 then "0.0".toList
  else
    let (ds, lead) := significant (shortest p)
    if -4 ≤ lead && lead < 16 then positional ds lead else scientific ds lead

/-- The exact text of a number, a sign on zero included. -/
def exactText (x : Float) : List Char :=
  let p := patternOf x
  if infinitePattern < p then "nan".toList
  else
    let magnitude := if p = infinitePattern then "inf".toList else magnitudeText p
    if isNegative x then '-' :: magnitude else magnitude

def intText (n : Int) : List Char :=
  if n < 0 then '-' :: Nat.toDigits 10 n.natAbs else Nat.toDigits 10 n.natAbs

/-- A number as the language shows it.  Whole numbers below 10^16 have neither a point nor a sign on zero. -/
def render (x : Float) : List Char :=
  if isFinite x && isWhole x && wholePart x < pow10 16 then intText (truncate x) else exactText x

end Catena.Number
