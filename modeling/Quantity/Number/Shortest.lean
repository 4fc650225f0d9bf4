import Quantity.Number.Binary

/-!
# The fewest digits that read back

Every finite binary number is read back from any decimal in an interval around it. This
module finds the decimal with the fewest digits in that interval, and of several such the
one nearest to the number. All tests are made in exact integer arithmetic: on a grid of
step `10 ^ k` only the two neighbours of the number can be nearest, so it is enough to try
them on one grid after the other, the coarsest first.
-/

namespace Quantity.Number

/-- The decimal `digits * 10 ^ exponent`. -/
structure Digits where
  digits : Nat
  exponent : Int
  deriving DecidableEq, Repr

/-- Which neighbour is taken when a number lies halfway between the two. -/
inductive Tie where
  /-- The larger one. -/
  | up
  /-- The even one. -/
  | even
  deriving DecidableEq, Repr

/-- A fraction in the middle of the interval of fractions that read back to it; all three
have the denominator `denominator`. -/
structure ReadBack where
  low : Nat
  value : Nat
  high : Nat
  denominator : Nat
  /-- Whether the two ends read back as well. -/
  closed : Bool
  deriving DecidableEq, Repr

namespace ReadBack

/-- The interval of `significand * 2 ^ exponent`. The ends lie halfway to the neighbouring
numbers and belong to it when the significand is even. -/
def ofBinary (significand : Nat) (exponent : Int) (wideBelow : Bool) : ReadBack :=
  let below := if wideBelow then 2 else 1
  let scale := twoPow exponent.toNat
  { low := (4 * significand - below) * scale
    value := 4 * significand * scale
    high := (4 * significand + 2) * scale
    denominator := 4 * twoPow (-exponent).toNat
    closed := significand % 2 == 0 }

def inUnits (r : ReadBack) (k : Int) : ReadBack :=
  let up := tenPow (-k).toNat
  { r with
    low := r.low * up
    value := r.value * up
    high := r.high * up
    denominator := r.denominator * tenPow k.toNat }

def contains (r : ReadBack) (n : Nat) : Bool :=
  let x := n * r.denominator
  if r.closed then r.low ≤ x && x ≤ r.high else r.low < x && x < r.high

/-- The integer next to the value that reads back, the nearer one if both do. -/
def nearest? (tie : Tie) (r : ReadBack) : Option Nat :=
  let below := r.value / r.denominator
  let twice := 2 * (r.value % r.denominator)
  match r.contains below, r.contains (below + 1) with
  | true, false => some below
  | false, true => some (below + 1)
  | false, false => none
  | true, true =>
    if twice < r.denominator then some below
    else if r.denominator < twice then some (below + 1)
    else match tie with
      | .up => some (below + 1)
      | .even => some (if below % 2 = 0 then below else below + 1)

def digitCount (n : Nat) : Nat := (Nat.toDigits 10 n).length

/-- An exponent that no power of ten up to the value exceeds. -/
def topExponent (r : ReadBack) : Int :=
  (digitCount r.value : Int) - digitCount r.denominator + 1

/-- The decimal with the fewest digits that reads back. Seventeen digits always suffice for
a double-precision number, so twenty-one grids are more than enough. -/
def shortest (tie : Tie) (r : ReadBack) : Digits :=
  let top := r.topExponent
  let found := (List.range 21).findSome? fun (i : Nat) =>
    ((r.inUnits (top - i)).nearest? tie).map fun n => Digits.mk n (top - i)
  found.getD ⟨0, 0⟩

end ReadBack

/-- The fewest digits that read back to `significand * 2 ^ exponent`; zero has none. -/
def shortestDigits (tie : Tie) (significand : Nat) (exponent : Int) (wideBelow : Bool) :
    Option Digits :=
  if significand = 0 then none
  else some ((ReadBack.ofBinary significand exponent wideBelow).shortest tie)

end Quantity.Number
