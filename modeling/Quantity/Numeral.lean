import Quantity.Number.Decimal
import Quantity.Number.Layout

/-!
# Numerals

Factors and offsets are numerals of one of three kinds: double precision, single precision
and decimal. Arithmetic combines numerals of one kind only and never leaves the finite
numbers: what would overflow is an error instead.
-/

namespace Quantity

open Quantity.Number

/-- The kind of number behind a unit. -/
inductive NumericKind where
  | double
  | float
  | decimal
  deriving DecidableEq, Repr, Inhabited

/-- A number of one kind. -/
inductive Numeral where
  | double (value : Float)
  | float (value : Float32)
  | decimal (value : Decimal)
  deriving DecidableEq, Inhabited

/-- Why a numeral could not be read or computed. -/
inductive NumeralError where
  | divisionByZero
  | overflow
  /-- The text is no numeral of the kind. -/
  | invalid (kind : NumericKind) (text : String)
  /-- Numerals of different kinds do not combine. -/
  | kindMismatch (left right : NumericKind)
  deriving DecidableEq, Repr

namespace NumericKind

def keyword : NumericKind → String
  | double => "double"
  | float => "float"
  | decimal => "decimal"

/-- The kind a word names, in any case of its letters. -/
def ofKeyword? (word : String) : Option NumericKind :=
  let word := String.ofList (word.toList.map Char.toLower)
  if word = "double" then some double
  else if word = "float" then some float
  else if word = "decimal" then some decimal
  else none

def typeName : NumericKind → String
  | double => "f64"
  | float => "f32"
  | decimal => "Decimal"

def one : NumericKind → Numeral
  | double => .double 1
  | float => .float 1
  | decimal => .decimal .one

def zero : NumericKind → Numeral
  | double => .double 0
  | float => .float 0
  | decimal => .decimal .zero

end NumericKind

namespace NumeralError

def message : NumeralError → String
  | divisionByZero => "Division by zero"
  | overflow => "Numeric overflow"
  | invalid kind text => "Invalid " ++ kind.keyword ++ " numeral '" ++ text ++ "'"
  | kindMismatch left right =>
    "Cannot combine " ++ left.keyword ++ " and " ++ right.keyword ++ " values"

end NumeralError

namespace Numeral

def kind : Numeral → NumericKind
  | double _ => .double
  | float _ => .float
  | decimal _ => .decimal

def isZero : Numeral → Bool
  | double v => v == 0
  | float v => v == 0
  | decimal v => v.isZero

def isOne : Numeral → Bool
  | double v => v == 1
  | float v => v == 1
  | decimal v => v.sameValue .one

/-- The value in double precision, for comparisons within a tolerance and for reports. -/
def toFloat : Numeral → Float
  | double v => v
  | float v => v.toFloat
  | decimal v => v.toFloat

def isFinite : Numeral → Bool
  | double v => v.isFinite
  | float v => v.isFinite
  | decimal _ => true

/-- A numeral that is finite, or else an overflow. -/
def finite (n : Numeral) : Except NumeralError Numeral :=
  if n.isFinite then .ok n else .error .overflow

/-! ### Arithmetic -/

def ofDecimal? : Option Decimal → Except NumeralError Numeral
  | some v => .ok (.decimal v)
  | none => .error .overflow

/-- The operation of each kind on two numerals of that kind. -/
def combine (onDouble : Float → Float → Float) (onFloat : Float32 → Float32 → Float32)
    (onDecimal : Decimal → Decimal → Option Decimal) :
    Numeral → Numeral → Except NumeralError Numeral
  | double a, double b => (Numeral.double (onDouble a b)).finite
  | float a, float b => (Numeral.float (onFloat a b)).finite
  | decimal a, decimal b => ofDecimal? (onDecimal a b)
  | a, b => .error (.kindMismatch a.kind b.kind)

def add : Numeral → Numeral → Except NumeralError Numeral :=
  combine (· + ·) (· + ·) Decimal.add?

def sub : Numeral → Numeral → Except NumeralError Numeral :=
  combine (· - ·) (· - ·) Decimal.sub?

def mul : Numeral → Numeral → Except NumeralError Numeral :=
  combine (· * ·) (· * ·) Decimal.mul?

def div (a b : Numeral) : Except NumeralError Numeral :=
  if b.isZero && a.kind = b.kind then .error .divisionByZero
  else combine (· / ·) (· / ·) Decimal.div? a b

def neg : Numeral → Numeral
  | double v => .double (-v)
  | float v => .float (-v)
  | decimal v => .decimal v.neg

/-- Equality within a tolerance relative to the larger of the two; zero matches zero only. -/
def approxEq (a b : Numeral) (tolerance : Float) : Bool :=
  let sameDecimal := match a, b with
    | decimal a, decimal b => a.sameValue b
    | _, _ => false
  let x := a.toFloat
  let y := b.toFloat
  sameDecimal || x == y || (x - y).abs ≤ tolerance * max x.abs y.abs

/-! ### Texts -/

def text : Numeral → String
  | double v => Layout.display.write (Binary.ofFloat v)
  | float v => Layout.display.write (Binary.ofFloat32 v)
  | decimal v => v.toText

/-- The call that builds a decimal in generated source. -/
def decimalLiteral (d : Decimal) : String :=
  let (low, middle, high) := d.words
  let negative := if d.negative && !d.isZero then "true" else "false"
  "Decimal::from_parts(" ++ toString low ++ ", " ++ toString middle ++ ", " ++ toString high
    ++ ", " ++ negative ++ ", " ++ toString d.places ++ ")"

/-- The numeral as an expression of generated source. -/
def literal : Numeral → String
  | double v => Layout.literal.write (Binary.ofFloat v) ++ "f64"
  | float v => Layout.literal.write (Binary.ofFloat32 v) ++ "f32"
  | decimal v => decimalLiteral v

end Numeral

namespace NumericKind

/-- Read a text such as `2.54`, `.5` or `1e-3` as a numeral of this kind. -/
def parse (k : NumericKind) (text : String) : Except NumeralError Numeral :=
  let cs := text.toList
  let invalid := Except.error (NumeralError.invalid k text)
  match k with
  | decimal =>
    let cs := match cs with
      | '.' :: _ => '0' :: cs
      | _ => cs
    let value := if cs.any fun c => c = 'e' || c = 'E' then Decimal.readScientific? cs
      else Decimal.read? cs
    match value with
    | some v => .ok (.decimal v)
    | none => invalid
  | _ =>
    if (nonFinite? cs).isSome then .error .overflow
    else match DecimalText.read? cs with
      | none => invalid
      | some t =>
        if k = double then (Numeral.double t.toFloat).finite
        else (Numeral.float t.toFloat32).finite

def convert (k : NumericKind) (n : Numeral) : Except NumeralError Numeral :=
  if n.kind = k then .ok n
  else match k with
    | double => (Numeral.double n.toFloat).finite
    | float => (Numeral.float n.toFloat.toFloat32).finite
    | decimal => Numeral.ofDecimal? (Decimal.ofFloat? n.toFloat)

end NumericKind

/-! ### Named constants -/

/-- The numbers that have a name in definitions. -/
inductive NamedConstant where
  | pi
  | e
  deriving DecidableEq, Repr

namespace NamedConstant

def ofName? (name : String) : Option NamedConstant :=
  if name = "pi" || name = "π" then some pi
  else if name = "e" then some e
  else none

/-- The name of the constant in the constants of generated source. -/
def constantName : NamedConstant → String
  | pi => "PI"
  | e => "E"

/-- The decimal value, with all the places there are. -/
def toDecimal : NamedConstant → Decimal
  | pi => ⟨false, 31415926535897932384626433833, 28, by decide, by decide⟩
  | e => ⟨false, 27182818284590452353602874714, 28, by decide, by decide⟩

def toFloat : NamedConstant → Float
  | pi => 3.14159265358979323846264338327950288
  | e => 2.71828182845904523536028747135266250

def toFloat32 : NamedConstant → Float32
  | pi => 3.14159265358979323846264338327950288
  | e => 2.71828182845904523536028747135266250

def value (c : NamedConstant) : NumericKind → Numeral
  | .double => .double c.toFloat
  | .float => .float c.toFloat32
  | .decimal => .decimal c.toDecimal

/-- The expression for the constant in generated source. -/
def code (c : NamedConstant) : NumericKind → String
  | .decimal => (c.value .decimal).literal
  | k => "std::" ++ k.typeName ++ "::consts::" ++ c.constantName

end NamedConstant

def isNamedConstant (name : String) : Bool := (NamedConstant.ofName? name).isSome

end Quantity
