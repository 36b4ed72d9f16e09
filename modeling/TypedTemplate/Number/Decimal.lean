/-
# `TypedTemplate.Number.Decimal` — the shortest decimal that reads back the same

A double is written with the fewest digits that still round to it, and with the
digits nearest to it among those: the coarsest grid of multiples of a power of ten
that has a point in the double's interval is found, and of the two grid points
next to the double the nearer is taken, the upper one on a tie.  All arithmetic is
on whole numbers and exact.

The digits are always set out in full: never an exponent, no decimal point on a
whole number, and a leading zero before a fraction.
-/
import TypedTemplate.Number.Binary

namespace TypedTemplate.Number

/-- The whole number `digits · 10 ^ exponent`, or a fraction if the exponent is negative. -/
structure Decimal where
  digits : Nat
  exponent : Int
deriving Repr, DecidableEq

namespace Decimal

/-- The multiple of `step` that stands for the interval's double on this grid, if one of
the two next to it lies in the interval: the nearer, the upper on a tie. -/
def onGrid (i : Interval) (scale step : Nat) : Option Nat :=
  let below := i.mid * scale / step
  match i.holds scale step below, i.holds scale step (below + 1) with
  | true, true =>
    some (if 2 * (i.mid * scale - below * step) < step then below else below + 1)
  | true, false => some below
  | false, true => some (below + 1)
  | false, false => none

/-- The decimal on the grid of the multiples of `10 ^ exponent`. -/
def atExponent (i : Interval) (quarter exponent : Int) : Option Decimal :=
  let scale := Nat.pow 2 quarter.toNat * Nat.pow 10 (-exponent).toNat
  let step := Nat.pow 2 (-quarter).toNat * Nat.pow 10 exponent.toNat
  (onGrid i scale step).map fun digits => ⟨digits, exponent⟩

/-- Powers of ten from the largest that a double reaches down to the smallest. -/
def exponents : List Int := (List.range 634).map fun (n : Nat) => 309 - (n : Int)

/-- The shortest decimal in the interval around `mantissa · 2 ^ exponent`. -/
def shortest? (mantissa : Nat) (exponent : Int) (narrowBelow : Bool) : Option Decimal :=
  exponents.findSome? (atExponent (.around mantissa narrowBelow) (exponent - 2))

/-- The digits of a whole number. -/
def digitChars (n : Nat) : List Char := Nat.toDigits 10 n

/-- A decimal in full, without an exponent. -/
def positional (d : Decimal) : List Char :=
  let digits := digitChars d.digits
  if 0 ≤ d.exponent then digits ++ List.replicate d.exponent.toNat '0'
  else
    let places := (-d.exponent).toNat
    if digits.length ≤ places then
      '0' :: '.' :: (List.replicate (places - digits.length) '0' ++ digits)
    else
      digits.take (digits.length - places) ++ '.' :: digits.drop (digits.length - places)

end Decimal

/-- The digits of what a double stands for. -/
def Binary.chars : Binary → List Char
  | .nan => ['N', 'a', 'N']
  | .infinity negative => (if negative then ['-'] else []) ++ ['i', 'n', 'f']
  | .finite negative mantissa exponent narrowBelow =>
    (if negative then ['-'] else []) ++
      if mantissa = 0 then ['0']
      else ((Decimal.shortest? mantissa exponent narrowBelow).map Decimal.positional).getD []

/-- A double in writing. -/
def floatText (x : Float) : String := String.ofList (Binary.ofBits x.toBits).chars

end TypedTemplate.Number
