import Quantity.Number.Shortest

/-!
# Reading decimal texts as binary numbers

The accepted texts are `digits`, `digits.`, `digits.digits` and `.digits`, each with an
optional sign in front and an optional exponent behind, and the names of the infinities and
of the undefined number.
-/

namespace Quantity.Number

/-- The value of a run of decimal digits that continues `start`. -/
def digitsValue (start : Nat) (ds : List Char) : Nat :=
  ds.foldl (fun n d => 10 * n + (d.toNat - '0'.toNat)) start

/-- A sign in front of a text, and the text without it. -/
def splitSign : List Char → Bool × List Char
  | '-' :: cs => (true, cs)
  | '+' :: cs => (false, cs)
  | cs => (false, cs)

/-- The decimal number `± digits * 10 ^ exponent` as it was written. -/
structure DecimalText where
  negative : Bool
  digits : Nat
  exponent : Int
  deriving DecidableEq, Repr

namespace DecimalText

/-- The exponent after the digits of a number, if the text ends as one. -/
def exponent? : List Char → Option Int
  | [] => some 0
  | mark :: cs =>
    if mark = 'e' || mark = 'E' then
      let (negative, ds) := splitSign cs
      if !ds.isEmpty && ds.all Char.isDigit then
        let e := digitsValue 0 ds
        some (if negative then -e else e)
      else none
    else none

def read? (cs : List Char) : Option DecimalText :=
  let (negative, cs) := splitSign cs
  let whole := cs.takeWhile Char.isDigit
  let rest := cs.dropWhile Char.isDigit
  let (fraction, rest) := match rest with
    | '.' :: more => (more.takeWhile Char.isDigit, more.dropWhile Char.isDigit)
    | _ => ([], rest)
  if whole.isEmpty && fraction.isEmpty then none
  else (exponent? rest).map fun e =>
    ⟨negative, digitsValue 0 (whole ++ fraction), e - fraction.length⟩

/-- The power of ten just above the number; all the numbers of both widths lie far within
`10 ^ ± 400`, so a number beyond it is read as an infinity or as zero. -/
def topExponent (t : DecimalText) : Int := ReadBack.digitCount t.digits + t.exponent

def toFloat (t : DecimalText) : Float :=
  let size : Float :=
    if t.digits = 0 || t.topExponent < -400 then 0
    else if 400 < t.topExponent then 1 / 0
    else Float.ofScientific t.digits (t.exponent < 0) t.exponent.natAbs
  if t.negative then -size else size

def toFloat32 (t : DecimalText) : Float32 :=
  let size : Float32 :=
    if t.digits = 0 || t.topExponent < -400 then 0
    else if 400 < t.topExponent then 1 / 0
    else Float32.ofScientific t.digits (t.exponent < 0) t.exponent.natAbs
  if t.negative then -size else size

end DecimalText

/-- The infinity or the undefined number that a text names, in any case of letters. -/
def nonFinite? (cs : List Char) : Option Float :=
  let (negative, word) := splitSign cs
  let word := String.ofList (word.map Char.toLower)
  let signed (x : Float) : Float := if negative then -x else x
  if word = "inf" || word = "infinity" then some (signed (1 / 0))
  else if word = "nan" then some (signed (0 / 0))
  else none

/-- The double-precision number of a text, be it finite or not. -/
def readFloat? (cs : List Char) : Option Float :=
  (nonFinite? cs).or ((DecimalText.read? cs).map DecimalText.toFloat)

end Quantity.Number
