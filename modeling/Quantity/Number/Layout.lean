import Quantity.Number.Shortest

/-!
# Layouts of binary numbers

A layout says how the chosen digits of a number are set: where positional writing ends,
whether a whole number keeps a decimal, and how an exponent is written.
-/

namespace Quantity.Number

/-- The decisions of one way to write numbers. -/
structure Layout where
  /-- Whether a number whose leading digit stands for `10 ^ e` is written without an
  exponent. -/
  positional : Int → Bool
  /-- Whether a whole number keeps the decimal `.0`. -/
  keepsPoint : Bool
  /-- Whether an exponent that is not negative gets a sign. -/
  signsExponent : Bool
  /-- The neighbour taken halfway between two decimals. -/
  tie : Tie

namespace Layout

/-- The text of `digits * 10 ^ exponent` without an exponent. -/
def plain (keepsPoint : Bool) (digits : List Char) (exponent : Int) : List Char :=
  if 0 ≤ exponent then
    digits ++ List.replicate exponent.toNat '0' ++ (if keepsPoint then ['.', '0'] else [])
  else
    let places := (-exponent).toNat
    let padded := List.replicate (places + 1 - digits.length) '0' ++ digits
    let whole := padded.length - places
    padded.take whole ++ '.' :: padded.drop whole

def exponentText (signsExponent : Bool) (e : Int) : List Char :=
  let sign := if e < 0 then ['-'] else if signsExponent then ['+'] else []
  'e' :: sign ++ Nat.toDigits 10 e.natAbs

/-- The text of the digits with the point after the first one, and of the exponent. -/
def scientific (signsExponent : Bool) (digits : List Char) (leading : Int) : List Char :=
  let mantissa := match digits with
    | d :: e :: more => d :: '.' :: e :: more
    | _ => digits
  mantissa ++ exponentText signsExponent leading

def magnitudeText (l : Layout) : Option Digits → List Char
  | none => if l.keepsPoint then ['0', '.', '0'] else ['0']
  | some d =>
    let digits := Nat.toDigits 10 d.digits
    let leading := d.exponent + digits.length - 1
    if l.positional leading then plain l.keepsPoint digits d.exponent
    else scientific l.signsExponent digits leading

def write (l : Layout) : Binary → String
  | .undefined => "NaN"
  | .infinite negative => if negative then "-inf" else "inf"
  | .finite negative significand exponent wideBelow =>
    let sign := if negative then ['-'] else []
    String.ofList (sign ++ l.magnitudeText (shortestDigits l.tie significand exponent wideBelow))

/-- Numbers for readers: never an exponent, and no decimals on a whole number. -/
def display : Layout := ⟨fun _ => true, false, false, .up⟩

/-- Numbers in generated source: positional from `0.0001` up to below `10 ^ 16`. -/
def literal : Layout := ⟨fun e => -4 ≤ e && e ≤ 15, true, false, .up⟩

end Layout

end Quantity.Number
