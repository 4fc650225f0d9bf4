import Quantity.Number.Reading

/-!
# Decimal numbers with a 96-bit significand

A decimal is a sign, a significand below `2 ^ 96` and a number of decimal places up to 28.
Sums and products are exact where the result fits; otherwise places are dropped, a half
going to the even neighbour, until it does. Quotients carry as many places as fit.
-/

namespace Quantity.Number

/-- A decimal number `± significand / 10 ^ places`. -/
structure Decimal where
  negative : Bool
  significand : Nat
  places : Nat
  significand_lt : significand < twoPow 96
  places_le : places ≤ 28
  deriving DecidableEq, Repr

namespace Decimal

def bound : Nat := twoPow 96

def maxPlaces : Nat := 28

/-- The decimal with these parts, if they are in range. -/
def ofParts? (negative : Bool) (significand places : Nat) : Option Decimal :=
  if h : significand < twoPow 96 ∧ places ≤ 28 then
    some ⟨negative, significand, places, h.1, h.2⟩
  else none

/-- The decimal with these parts; a zero has no sign. -/
def normal? (negative : Bool) (significand places : Nat) : Option Decimal :=
  ofParts? (negative && significand != 0) significand places

def zero : Decimal := ⟨false, 0, 0, by decide, by decide⟩

def one : Decimal := ⟨false, 1, 0, by decide, by decide⟩

instance : Inhabited Decimal := ⟨zero⟩

def isZero (d : Decimal) : Bool := d.significand == 0

def signed (d : Decimal) : Int := if d.negative then -d.significand else d.significand

/-- Two decimals have the same value if they agree at a common number of places. -/
def sameValue (a b : Decimal) : Bool :=
  a.signed * tenPow b.places == b.signed * tenPow a.places

/-! ### Rounding into range -/

/-- The quotient `n / d` rounded to an integer, a half going to the even neighbour. -/
def divHalfEven (n d : Nat) : Nat :=
  let q := n / d
  let twice := 2 * (n % d)
  if twice < d then q
  else if d < twice then q + 1
  else if q % 2 = 0 then q else q + 1

/-- `significand / 10 ^ places` with the fewest places dropped such that it is in range. -/
def fit? (significand places : Nat) : Option (Nat × Nat) :=
  (List.range (places + 1)).findSome? fun k =>
    let rounded := divHalfEven significand (tenPow k)
    if places ≤ maxPlaces + k && rounded < bound then some (rounded, places - k) else none

/-! ### Sums and products -/

def neg (d : Decimal) : Decimal := { d with negative := !d.negative }

def addNonzero? (a b : Decimal) : Option Decimal := do
  let places := max a.places b.places
  let total := a.signed * tenPow (places - a.places) + b.signed * tenPow (places - b.places)
  let (significand, places) ← fit? total.natAbs places
  normal? (total < 0) significand places

/-- The sum; adding to zero or adding zero changes nothing, the number of places included. -/
def add? (a b : Decimal) : Option Decimal :=
  if a.isZero then some b
  else if b.isZero then some a
  else addNonzero? a b

def sub? (a b : Decimal) : Option Decimal :=
  if a.isZero then some (if b.isZero then b else b.neg)
  else if b.isZero then some a
  else addNonzero? a b.neg

/-- The product. Short factors whose product has more than 47 places give zero. -/
def mul? (a b : Decimal) : Option Decimal :=
  let short := a.significand < twoPow 32 && b.significand < twoPow 32
  let places := a.places + b.places
  if a.isZero || b.isZero then some zero
  else if short && 47 < places then some zero
  else do
    let (significand, places) ← fit? (a.significand * b.significand) places
    let negative := a.negative != b.negative
    if short then normal? negative significand places
    else ofParts? negative significand places

/-! ### Quotients -/

/-- The significand and the places that a division has found, and whether it ever left a
remainder. -/
structure Quotient where
  significand : Nat
  places : Nat
  inexact : Bool

/-- Divide a significand that has just left the range by ten, and drop a place; there must be
one after the point. -/
def carry? (q : Nat) (places : Int) (roundUp : Bool) : Option (Nat × Int) :=
  if q < bound then some (q, places)
  else if places ≤ 0 then none
  else some (q / 10 + (if roundUp then 1 else 0), places - 1)

/-- The largest number of places up to `limit` by which `q` can be extended in range. -/
def room (q limit : Nat) : Nat :=
  ((List.range (limit + 1)).reverse.find? fun p => q * tenPow p < bound).getD 0

/-- The places by which the next step extends a quotient, or `none` if it is finished. -/
def nextPlaces (q r : Nat) (places : Int) : Nat :=
  if r = 0 then min 9 (-places).toNat
  else room q (min 9 (28 - places).toNat)

/-- Long division in steps of up to nine places. `q` and `r` are the quotient and the
remainder found so far; each step extends the quotient by at least one place, so the
missing places up to 28 bound the number of steps. -/
def longDivision (divisor q r : Nat) (places : Int) (inexact : Bool) :
    (steps : Nat) → Option Quotient
  | 0 => none
  | steps + 1 =>
    let inexact := inexact || r != 0
    let p := nextPlaces q r places
    if r = 0 && 0 ≤ places then some ⟨q, places.toNat, inexact⟩
    else if p = 0 then
      if places < 0 then none
      else
        let up := divisor < 2 * r || (divisor = 2 * r && q % 2 = 1)
        let q := if up then q + 1 else q
        (carry? q places (5 ≤ q % 10)).map fun (q, places) => ⟨q, places.toNat, inexact⟩
    else
      let q := q * tenPow p
      let places := places + p
      if bound ≤ q then none
      else
        let q := q + r * tenPow p / divisor
        let r := r * tenPow p % divisor
        if q < bound then longDivision divisor q r places inexact steps
        else
          let last := q % 10
          let up := 5 < last || (last = 5 && (r != 0 || q / 10 % 2 = 1))
          (carry? q places up).map fun (q, places) => ⟨q, places.toNat, inexact⟩

/-- Drop `n` zeros at the end, if the places allow it and the low bits show it. -/
def dropZeros (n : Nat) (q : Quotient) : Quotient :=
  if n ≤ q.places && q.significand % tenPow n = 0 then
    { q with significand := q.significand / tenPow n, places := q.places - n }
  else q

/-- Drop eight zeros at a time while the low 32 bits of the significand are zero. -/
def dropEights (q : Quotient) : (steps : Nat) → Quotient
  | 0 => q
  | steps + 1 =>
    if q.significand % twoPow 32 = 0 && 8 ≤ q.places && q.significand % tenPow 8 = 0 then
      dropEights (dropZeros 8 q) steps
    else q

/-- Drop most of the zeros at the end of a quotient that did not come out at once. -/
def trim (q : Quotient) : Quotient :=
  let q := dropEights q 4
  let q := if q.significand % 16 = 0 then dropZeros 4 q else q
  let q := if q.significand % 4 = 0 then dropZeros 2 q else q
  if q.significand % 2 = 0 then dropZeros 1 q else q

def div? (a b : Decimal) : Option Decimal :=
  if a.isZero then some zero
  else do
    let q ← longDivision b.significand (a.significand / b.significand)
      (a.significand % b.significand) (a.places - b.places : Int) false 60
    let q := if q.inexact then trim q else q
    normal? (a.negative != b.negative) q.significand q.places

/-! ### Texts -/

/-- The digits of the significand with the point before the last `places` of them. -/
def toText (d : Decimal) : String :=
  let digits := Nat.toDigits 10 d.significand
  let padded := List.replicate (d.places + 1 - digits.length) '0' ++ digits
  let whole := padded.length - d.places
  let fraction := if d.places = 0 then [] else '.' :: padded.drop whole
  String.ofList ((if d.negative then ['-'] else []) ++ padded.take whole ++ fraction)

/-- What has been read of a decimal: its significand and places, whether the point was
passed, and whether there was a digit. -/
structure Progress where
  significand : Nat := 0
  places : Nat := 0
  pointSeen : Bool := false
  digitSeen : Bool := false

def Progress.roundBy? (p : Progress) (digit : Nat) : Option Progress :=
  if digit < 5 then some p
  else if p.significand + 1 < bound then some { p with significand := p.significand + 1 }
  else if p.places = 0 then none
  else some { p with significand := (p.significand + 1 + 4) / 10, places := p.places - 1 }

/-- Read digits, at most one point, and underscores after the first digit. A digit after the
point that does not fit rounds the number, and the digits behind it are dropped. -/
def readFrom? (p : Progress) : List Char → Option Progress
  | [] => some p
  | '.' :: cs => if p.pointSeen then none else readFrom? { p with pointSeen := true } cs
  | '_' :: cs => if p.digitSeen then readFrom? p cs else none
  | c :: cs =>
    if c.isDigit then
      let digit := c.toNat - '0'.toNat
      let extended := 10 * p.significand + digit
      if (p.pointSeen && p.places = maxPlaces) || bound ≤ extended then
        if p.pointSeen && cs.all fun c => c.isDigit || c = '_' then p.roundBy? digit else none
      else
        readFrom?
          { p with
            significand := extended
            places := if p.pointSeen then p.places + 1 else p.places
            digitSeen := true } cs
    else none

def read? (cs : List Char) : Option Decimal := do
  let (negative, cs) := splitSign cs
  let p ← readFrom? {} cs
  if p.digitSeen then normal? negative p.significand p.places else none

/-- Read a 32-bit number with an optional plus sign. -/
def readExponent? (cs : List Char) : Option Nat :=
  let ds := match cs with
    | '+' :: ds => ds
    | ds => ds
  if ds.isEmpty || !ds.all Char.isDigit then none
  else
    let n := digitsValue 0 ds
    if n < twoPow 32 then some n else none

/-- Drop the zeros at the end, down to a whole number. -/
def stripZeros (d : Decimal) : Option Decimal :=
  if d.isZero then some zero
  else
    let zeros := ((Nat.toDigits 10 d.significand).reverse.takeWhile (· = '0')).length
    let n := min zeros d.places
    ofParts? d.negative (d.significand / tenPow n) (d.places - n)

/-- Multiply by `10 ^ n`, at most nineteen places at a time. -/
def shiftUp? (d : Decimal) (n : Nat) : Option Decimal := do
  let step (d : Decimal) (k : Nat) : Option Decimal := do
    mul? d (← ofParts? false (tenPow k) 0)
  if n ≤ 19 then step d n else step (← step d 19) (n - 19)

/-- Read a decimal with an exponent after the first `e`. -/
def readScientific? (cs : List Char) : Option Decimal := do
  let isMark := fun c => c = 'e' || c = 'E'
  let base ← read? (cs.takeWhile fun c => !isMark c)
  match (cs.dropWhile fun c => !isMark c).drop 1 with
  | '-' :: ds =>
    let x ← readExponent? ds
    ofParts? base.negative base.significand (base.places + x)
  | ds =>
    let x ← readExponent? ds
    if x ≤ base.places then ofParts? base.negative base.significand (base.places - x)
    else if 28 < x then none
    else (shiftUp? base x).bind stripZeros

/-! ### Conversions -/

/-- `10 ^ n` by repeated squaring in double precision. -/
def floatPowerOfTen (n : Nat) : Float :=
  let rec go (result base : Float) (n : Nat) : (bits : Nat) → Float
    | 0 => result
    | bits + 1 => go (if n % 2 = 1 then result * base else result) (base * base) (n / 2) bits
  go 1 10 n 5

/-- A nearby double-precision number: the whole part and the fraction are converted apart
and the sum is rounded at the last decimal place. -/
def toFloat (d : Decimal) : Float :=
  if d.places = 0 then
    let size := floatOfNat d.significand
    if d.negative && !d.isZero then -size else size
  else
    let unit := tenPow d.places
    let whole := floatOfNat (d.significand / unit)
    let fraction := floatOfNat (d.significand % unit) / floatOfNat unit
    let size :=
      if fraction == 0 then whole
      else
        let power := floatPowerOfTen d.places
        roundHalfUp ((whole + fraction) * power) / power
    if d.negative then -size else size

/-- A significand with a power of ten on its way into the range of decimals. -/
structure Scaled where
  significand : Nat
  exponent : Int

namespace Scaled

/-- Divide by two `n` times: exactly if possible, else by writing a half as five tenths as
long as that fits. -/
def halve : (n : Nat) → Scaled → Scaled
  | 0, x => x
  | n + 1, x =>
    if x.significand % 2 = 0 then halve n ⟨x.significand / 2, x.exponent + 1⟩
    else if 5 * x.significand < bound then halve n ⟨5 * x.significand, x.exponent⟩
    else halve n ⟨x.significand / 2, x.exponent + 1⟩

/-- Multiply by two `n` times, giving way to a division by five when there is no room. -/
def double? : (n : Nat) → Scaled → Option Scaled
  | 0, x => some x
  | n + 1, x =>
    if x.significand < twoPow 95 then double? n ⟨x.significand * 2, x.exponent - 1⟩
    else if (n + 1 : Int) < 2 * x.exponent then none
    else double? n ⟨x.significand / 5, x.exponent⟩

def flatten? (x : Scaled) : Option Scaled :=
  if 0 < x.exponent then
    let significand := x.significand * tenPow x.exponent.toNat
    if significand < bound then some ⟨significand, 0⟩ else none
  else some x

def dropDigit (x : Scaled) : Scaled :=
  ⟨x.significand / 10 + (if 5 ≤ x.significand % 10 then 1 else 0), x.exponent + 1⟩

/-- Drop the digits beyond the 28th place; what becomes zero on the way stays zero. -/
def dropExcess : (n : Nat) → Scaled → Scaled
  | 0, x => x
  | n + 1, x => if x.significand / 10 = 0 then ⟨0, 0⟩ else dropExcess n x.dropDigit

/-- Drop digits after the point that a double-precision number cannot have meant. -/
def dropNoise : (n : Nat) → Scaled → Scaled
  | 0, x => x
  | n + 1, x => if twoPow 52 ≤ x.significand then dropNoise n x.dropDigit else x

def dropZeros : (n : Nat) → Scaled → Scaled
  | 0, x => x
  | n + 1, x =>
    if x.significand % 10 = 0 then dropZeros n ⟨x.significand / 10, x.exponent + 1⟩ else x

end Scaled

/-- A nearby decimal of a finite number, if there is one in range. -/
def ofFloat? (x : Float) : Option Decimal :=
  match Binary.ofFloat x with
  | .finite negative significand exponent _ =>
    if significand = 0 then some { zero with negative }
    else do
      let start : Scaled := ⟨significand, exponent⟩
      let x ←
        if exponent < 0 then some (Scaled.halve exponent.natAbs start)
        else Scaled.double? exponent.natAbs start
      let x ← x.flatten?
      let x := Scaled.dropExcess (-28 - x.exponent).toNat x
      let x := Scaled.dropNoise (-x.exponent).toNat x
      let x := Scaled.dropZeros (-x.exponent).toNat x
      ofParts? negative x.significand (-x.exponent).toNat
  | _ => none

/-- The significand in three 32-bit words, the lowest first. -/
def words (d : Decimal) : Nat × Nat × Nat :=
  (d.significand % twoPow 32, d.significand / twoPow 32 % twoPow 32,
    d.significand / twoPow 64 % twoPow 32)

end Decimal

end Quantity.Number
