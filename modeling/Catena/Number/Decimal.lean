import Catena.Number.Binary

/-!
# Decimal numbers

A decimal is `digits * 10 ^ exponent`.  `Decimal.toPattern` reads one, correctly rounded, and `shortest` finds the
decimal with the fewest digits that reads back as a given binary number: of two such decimals the nearer one, and of
two equally near ones the one with the even last digit.
-/

namespace Catena.Number

def natOfDigits (ds : List Char) : Nat := ds.foldl (fun n d => 10 * n + (d.toNat - 0x30)) 0

/-- The number `digits * 10 ^ exponent`. -/
structure Decimal where
  digits : Nat
  exponent : Int
deriving DecidableEq, Repr

namespace Decimal

def numerator (d : Decimal) : Nat := d.digits * pow10 d.exponent.toNat

def denominator (d : Decimal) : Nat := pow10 (-d.exponent).toNat

/-- The pattern of the binary number nearest to a decimal. -/
def toPattern (d : Decimal) : Nat := nearest d.numerator d.denominator

end Decimal

/-- The least power of ten above a positive magnitude, as an exponent.  One binary digit is worth about 0.30103
decimal ones, which leaves a few candidates to compare with. -/
def decade (b : Binary) : Int :=
  let estimate := ((Nat.log2 b.mantissa : Int) + b.exponent) * 30103 / 100000
  let isAbove (k : Int) : Bool := b.numerator * pow10 (-k).toNat < b.denominator * pow10 k.toNat
  ([estimate - 1, estimate, estimate + 1].find? isAbove).getD (estimate + 2)

/-- The multiple of `10 ^ grid` nearest to a magnitude among those with the given pattern; at most the two
neighbours of the magnitude on that grid are in question. -/
def nearestOnGrid? (b : Binary) (p : Nat) (grid : Int) : Option Decimal :=
  let num := b.numerator * pow10 (-grid).toNat
  let den := b.denominator * pow10 grid.toNat
  let low : Decimal := ⟨num / den, grid⟩
  let high : Decimal := ⟨num / den + 1, grid⟩
  match low.toPattern == p, high.toPattern == p with
  | true, true =>
    let rest := 2 * (num % den)
    some (if rest < den then low else if den < rest then high else if low.digits % 2 = 0 then low else high)
  | true, false => some low
  | false, true => some high
  | false, false => none

/-- A magnitude itself as a decimal. -/
def Binary.toDecimal (b : Binary) : Decimal :=
  if 0 ≤ b.exponent then ⟨b.numerator, 0⟩ else ⟨b.mantissa * Nat.pow 5 (-b.exponent).toNat, b.exponent⟩

/-- The decimal with the fewest digits that has the given pattern. -/
def shortest (p : Nat) : Decimal :=
  let b := Binary.ofPattern p
  let k := decade b
  ((List.range 17).findSome? fun (n : Nat) => nearestOnGrid? b p (k - 1 - n)).getD b.toDecimal

end Catena.Number
