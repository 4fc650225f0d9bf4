import Quantity.Number.Power

/-!
# Binary numbers as exact fractions

A finite binary number of any width is an integer times a power of two. This module reads
the sign, the integer and the exponent off the bits of a number, so that the rest of the
library can reason about it and print it in exact integer arithmetic.
-/

namespace Quantity.Number

/-- The widths of the two fields of a binary number. -/
structure BinaryFormat where
  /-- Stored bits of the fraction. -/
  fractionBits : Nat
  /-- Stored bits of the exponent. -/
  exponentBits : Nat
  deriving DecidableEq, Repr

namespace BinaryFormat

def double : BinaryFormat := ⟨52, 11⟩

def single : BinaryFormat := ⟨23, 8⟩

/-- The exponent of the last bit of a number whose exponent field is `field`. -/
def lastBitExponent (f : BinaryFormat) (field : Nat) : Int :=
  (max field 1 : Int) - (twoPow (f.exponentBits - 1) - 1 : Nat) - f.fractionBits

end BinaryFormat

/-- A binary number taken apart. -/
inductive Binary where
  /-- The value is `significand * 2 ^ exponent`; `wideBelow` holds unless the gap to the next
  smaller number is half of the gap to the next larger one. -/
  | finite (negative : Bool) (significand : Nat) (exponent : Int) (wideBelow : Bool)
  /-- An infinity. -/
  | infinite (negative : Bool)
  /-- Not a number. -/
  | undefined
  deriving DecidableEq, Repr

namespace Binary

/-- Take apart the bits of a number. A number whose exponent field is not zero has one more
significant bit than is stored. -/
def ofBits (f : BinaryFormat) (bits : Nat) : Binary :=
  let fraction := bits % twoPow f.fractionBits
  let field := bits / twoPow f.fractionBits % twoPow f.exponentBits
  let negative := bits / twoPow (f.fractionBits + f.exponentBits) % 2 == 1
  if field = twoPow f.exponentBits - 1 then
    if fraction = 0 then .infinite negative else .undefined
  else if field = 0 then
    .finite negative fraction (f.lastBitExponent field) true
  else
    .finite negative (twoPow f.fractionBits + fraction) (f.lastBitExponent field)
      (fraction != 0 || field == 1)

def ofFloat (x : Float) : Binary := ofBits .double x.toBits.toNat

def ofFloat32 (x : Float32) : Binary := ofBits .single x.toBits.toNat

end Binary

/-- The nearest double-precision number to a natural number. -/
def floatOfNat (n : Nat) : Float := Float.ofScientific n false 0

/-- The nearest integer to a number that is not negative, a half going up, as a number. -/
def roundHalfUp (x : Float) : Float :=
  match Binary.ofFloat x with
  | .finite _ significand exponent _ =>
    if exponent < 0 then
      let unit := twoPow exponent.natAbs
      floatOfNat ((2 * significand + unit) / (2 * unit))
    else x
  | _ => x

end Quantity.Number
