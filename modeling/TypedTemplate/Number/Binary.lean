/-
# `TypedTemplate.Number.Binary` — the numbers behind double-precision bits

A finite double is `± mantissa · 2 ^ exponent` with whole `mantissa`.  The reals
that round to it fill an interval around it: half the gap to the next double on
each side, where the gap below a power of two is half the gap above.  The ends
belong to the interval when the mantissa is even, because a tie in rounding goes
to the even neighbour.  The interval is kept in quarters of the last place, so
that its ends are whole numbers.
-/
namespace TypedTemplate.Number

/-- What the bits of a double stand for. -/
inductive Binary where
  | nan
  | infinity (negative : Bool)
  /-- `± mantissa · 2 ^ exponent`; `narrowBelow` says that the gap below is half the gap above. -/
  | finite (negative : Bool) (mantissa : Nat) (exponent : Int) (narrowBelow : Bool)
deriving Repr, DecidableEq

/-- Takes a double's bits apart. -/
def Binary.ofBits (bits : UInt64) : Binary :=
  let negative := bits >>> 63 == 1
  let field := ((bits >>> 52) &&& 0x7ff).toNat
  let fraction := (bits &&& 0xfffffffffffff).toNat
  if field = 0x7ff then
    if fraction = 0 then .infinity negative else .nan
  else if field = 0 then .finite negative fraction (-1074) false
  else .finite negative (0x10000000000000 + fraction) (field - 1075) (fraction = 0 && field > 1)

/-- The reals that round to one double, in quarters of its last place: from `low` to
`high`, the double itself at `mid`. -/
structure Interval where
  low : Nat
  mid : Nat
  high : Nat
  closed : Bool
deriving Repr, DecidableEq

namespace Interval

/-- The interval around a mantissa. -/
def around (mantissa : Nat) (narrowBelow : Bool) : Interval where
  low := if narrowBelow then 4 * mantissa - 1 else 4 * mantissa - 2
  mid := 4 * mantissa
  high := 4 * mantissa + 2
  closed := mantissa % 2 = 0

/-- Whether `n · step` lies in the interval stretched by `scale`. -/
def holds (i : Interval) (scale step n : Nat) : Bool :=
  if i.closed then i.low * scale ≤ n * step && n * step ≤ i.high * scale
  else i.low * scale < n * step && n * step < i.high * scale

end Interval

end TypedTemplate.Number
