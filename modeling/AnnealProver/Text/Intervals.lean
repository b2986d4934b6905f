/-!
# Sets of code points

A character class of Unicode is given here as its **intervals**: closed ranges of code points, in
ascending order.  Membership is a scan, which keeps the classes transparent to proofs; the classes
answer for ASCII by arithmetic and consult their intervals only beyond it.
-/

namespace AnnealProver.Text

/-- Closed ranges of code points, in ascending order. -/
abbrev Intervals := List (Nat × Nat)

/-- Whether some range holds the code point. -/
def Intervals.contains (ranges : Intervals) (code : Nat) : Bool :=
  ranges.any fun range => range.1 ≤ code && code ≤ range.2

/-- Whether one of several interval lists holds the character. -/
def within (parts : List Intervals) (c : Char) : Bool :=
  parts.any fun part => part.contains c.toNat

end AnnealProver.Text
