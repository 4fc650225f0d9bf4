/-!
# Ranges of characters

Character classes are given as lists of ranges of code points. In some ranges only every
second character belongs to the class, as where capital and small letters alternate.
-/

namespace Quantity.Text

/-- The code points `first, first + step, …` up to `last`. -/
structure CharRange where
  first : Nat
  last : Nat
  step : Nat
  deriving DecidableEq, Repr

namespace CharRange

def contains (r : CharRange) (c : Char) : Bool :=
  r.first ≤ c.toNat && c.toNat ≤ r.last && (c.toNat - r.first) % r.step == 0

/-- The ranges that runs of characters make up, from a code point on. The lengths are, in turn, how
many code points are skipped and how many characters the run has. -/
def runs (step : Nat) (start : Nat) : List Nat → List CharRange
  | skipped :: count :: lengths =>
    let first := start + skipped
    let last := first + step * (count - 1)
    ⟨first, last, step⟩ :: runs step (last + 1) lengths
  | _ => []

end CharRange

/-- Whether the character is in one of the ranges. -/
def inRanges (ranges : List CharRange) (c : Char) : Bool := ranges.any (·.contains c)

def isAscii (c : Char) : Bool := c.toNat < 0x80

end Quantity.Text
