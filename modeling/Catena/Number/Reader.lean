import Catena.Number.Decimal
import Catena.Text.Blank

/-!
# How numbers are read

A number is an optional sign followed by `inf`, `infinity` or `nan` in any case, or by decimal digits with an optional
point and exponent.  Digits of every script count, and a single underscore may stand between two digits.  The value is
the binary number nearest to the decimal; out of range it is infinite.
-/

namespace Catena.Number

open Catena.Text

/-- A blank that may stand around a number: the ASCII separators U+001C to U+001F may not. -/
def isMargin (c : Char) : Bool := isBlank c && !(0x1C ≤ c.toNat && c.toNat ≤ 0x1F)

/-- Digits of every script become ASCII digits. -/
def asciiDigits (cs : List Char) : List Char :=
  cs.map fun c => match digitValue? c with
    | some d => Char.ofNat (0x30 + d)
    | none => c

/-- Takes out the underscores, each of which must stand between two digits; `before` is what precedes the text. -/
def joinDigits? (before : Char) : List Char → Option (List Char)
  | [] => some []
  | '_' :: c :: r => if isDigit before && isDigit c then (joinDigits? c r).map (c :: ·) else none
  | c :: r => if c = '_' then none else (joinDigits? c r).map (c :: ·)

/-- An optional sign, and whether it is negative. -/
def splitSign : List Char → Bool × List Char
  | '-' :: r => (true, r)
  | '+' :: r => (false, r)
  | r => (false, r)

def splitDigits (cs : List Char) : List Char × List Char := (cs.takeWhile isDigit, cs.dropWhile isDigit)

/-- The exponent at the end of a number; it is zero if there is none. -/
def exponent? : List Char → Option Int
  | [] => some 0
  | c :: r =>
    if c = 'e' || c = 'E' then
      let (negative, ds) := splitSign r
      if ds.isEmpty || !ds.all isDigit then none
      else some (if negative then -(natOfDigits ds : Int) else natOfDigits ds)
    else none

/-- Digits with an optional point and exponent, as all their digits and the exponent of the last. -/
def decimal? (cs : List Char) : Option (List Char × Int) :=
  let (whole, r) := splitDigits cs
  let (fraction, r) := match r with
    | '.' :: r => splitDigits r
    | r => ([], r)
  if whole.isEmpty && fraction.isEmpty then none
  else (exponent? r).map fun e => (whole ++ fraction, e - fraction.length)

/-- The pattern nearest to a decimal.  Magnitudes from 10^309 on are infinite and those below 10^-324 are zero, so that
no huge power of ten is ever computed. -/
def patternOfDigits (ds : List Char) (exponent : Int) : Nat :=
  let ds := ds.dropWhile (· = '0')
  if ds.isEmpty then 0
  else if 310 ≤ ds.length + exponent then infinitePattern
  else if ds.length + exponent ≤ -324 then 0
  else Decimal.toPattern ⟨natOfDigits ds, exponent⟩

/-- A number without blanks around it. -/
def ofTrimmed? (cs : List Char) : Option Float :=
  let (negative, body) := splitSign cs
  let name := body.map Char.toLower
  if name = "inf".toList || name = "infinity".toList then some (ofPattern negative infinitePattern)
  else if name = "nan".toList then some (ofPattern false undefinedPattern)
  else (decimal? body).map fun (ds, e) => ofPattern negative (patternOfDigits ds e)

def ofText? (cs : List Char) : Option Float :=
  (joinDigits? ' ' (asciiDigits (trimBoth isMargin cs))).bind ofTrimmed?

/-- The integer that a text stands for: an optional sign and at most 4300 digits, written as in other numbers. -/
def intOfText? (cs : List Char) : Option Int :=
  (joinDigits? ' ' (asciiDigits (trimBoth isMargin cs))).bind fun cs =>
    let (negative, ds) := splitSign cs
    if ds.isEmpty || !ds.all isDigit || 4300 < ds.length then none
    else some (if negative then -(natOfDigits ds : Int) else natOfDigits ds)

end Catena.Number
