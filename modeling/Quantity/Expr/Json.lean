import Quantity.Expr.Encoding
import Quantity.Text.Json

/-!
# JSON forms of dimensions and numerals

A dimension is the array of its exponents. A numeral is an object of its kind and its value:
a number for the binary kinds, a string for decimals.
-/

namespace Quantity

open Quantity.Text (Json)

namespace Number.Layout

/-- Double-precision numbers in JSON: positional from `0.00001` up to below `10 ^ 16`. -/
def jsonDouble : Layout := ⟨fun e => -5 ≤ e && e ≤ 15, true, true, .even⟩

/-- Single-precision numbers in JSON: positional from `0.000001` up to below `10 ^ 13`. -/
def jsonFloat : Layout := ⟨fun e => -6 ≤ e && e ≤ 12, true, true, .even⟩

end Number.Layout

open Number (Binary Layout DecimalText Decimal)

namespace Dimension

def toJson (d : Dimension) : Json := .array (d.exponents.map Json.int)

def ofJson? (j : Json) : Option Dimension := do ofList? (← j.listOf? Json.toInt?)

end Dimension

namespace NumericKind

def toJson (k : NumericKind) : Json := .string k.keyword

def ofJson? (j : Json) : Option NumericKind := do
  let word ← j.word?
  [double, float, decimal].find? fun k => k.keyword = word

end NumericKind

/-- A number in single precision. Integers are rounded once, other numbers by way of double
precision. -/
def readFloat32? (j : Json) : Option Float32 :=
  match j.toWord? with
  | some n => some (DecimalText.toFloat32 ⟨n < 0, n.natAbs, 0⟩)
  | none => j.toFloat?.map Float.toFloat32

def readDecimal? (j : Json) : Option Decimal :=
  match j with
  | .string s => (Decimal.read? s.toList).or (Decimal.readScientific? s.toList)
  | _ =>
    match j.toWord? with
    | some n => Decimal.read? (toString n).toList
    | none => j.toFloat?.bind fromFloat
where
  /-- The decimal with the digits that are shown for a number. -/
  fromFloat (x : Float) : Option Decimal :=
    Decimal.read? (Layout.display.write (Binary.ofFloat x)).toList

namespace Numeral

/-- The value alone. JSON has no number for what is not finite; it is null. -/
def valueJson (n : Numeral) : Json :=
  if n.isFinite then
    match n with
    | double v => .number (Layout.jsonDouble.write (Binary.ofFloat v))
    | float v => .number (Layout.jsonFloat.write (Binary.ofFloat32 v))
    | decimal v => .string v.toText
  else .null

def ofValueJson? (j : Json) : NumericKind → Option Numeral
  | .double => j.toFloat?.map .double
  | .float => (readFloat32? j).map .float
  | .decimal => (readDecimal? j).map .decimal

def toJson (n : Numeral) : Json :=
  .object [("kind", n.kind.toJson), ("value", n.valueJson)]

/-- A numeral is an object, or an array of its kind and its value. In the array the kind is a
plain word. -/
def ofJson? : Json → Option Numeral
  | .array [.string kind, value] => do ofValueJson? value (← NumericKind.ofJson? (.string kind))
  | .array _ => none
  | j => do
    let fields ← j.record? ["kind", "value"]
    let kind ← Json.required? fields "kind" NumericKind.ofJson?
    Json.required? fields "value" (ofValueJson? · kind)

end Numeral

namespace DimensionExpr

def toJson (d : DimensionExpr) : Json :=
  .object [("value", d.value.toJson), ("code", .string d.code)]

def ofJson? (j : Json) : Option DimensionExpr := do
  let fields ← j.record? ["value", "code"]
  let value ← Json.required? fields "value" Dimension.ofJson?
  let code ← Json.required? fields "code" Json.toString?
  return ⟨value, code⟩

end DimensionExpr

namespace NumeralExpr

def toJson (n : NumeralExpr) : Json :=
  .object [("is_true_constant", .bool n.constant), ("value", n.value.toJson),
    ("code", .string n.code)]

def ofJson? (j : Json) : Option NumeralExpr := do
  let fields ← j.record? ["is_true_constant", "value", "code"]
  let constant ← Json.required? fields "is_true_constant" Json.toBool?
  let value ← Json.required? fields "value" Numeral.ofJson?
  let code ← Json.required? fields "code" Json.toString?
  return ⟨constant, value, code⟩

end NumeralExpr

end Quantity
