/-
# `TypedTemplate.Text.Ranges` — a character property as a table of code points

A property of characters is given as a list of closed ranges of code points, in
increasing order and apart from each other.  `inRanges` looks a character up and
stops at the first range that begins after it, so a character near the start of
the code space is settled after a few comparisons however long the table is.
The tables themselves are in the modules named for their properties.
-/
namespace TypedTemplate.Text

/-- Closed ranges of code points, lowest first. -/
abbrev Ranges := List (Nat × Nat)

/-- Whether the code point `n` lies in one of the ranges. -/
def Ranges.holds : Ranges → Nat → Bool
  | [], _ => false
  | (low, high) :: rest, n => if n < low then false else decide (n ≤ high) || Ranges.holds rest n

/-- Whether the character lies in one of the ranges. -/
def inRanges (ranges : Ranges) (c : Char) : Bool := ranges.holds c.toNat

end TypedTemplate.Text
