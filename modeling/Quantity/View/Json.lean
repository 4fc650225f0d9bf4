import Quantity.Expr.Json
import Quantity.View.Basic

/-!
# JSON forms of views

A view is written with all its fields in a fixed order. Externals are left out if there are
none, and so is the module of an operand that has none; an optional value is null. Reading
takes the fields in any order, ignores fields it does not know and takes a missing optional
value for none.
-/

namespace Quantity

open Quantity.Text (Json)

def FamilyId.toJson (f : FamilyId) : Json := .int f.toNat

def FamilyId.ofJson? (j : Json) : Option FamilyId := j.toUInt32?.map UInt32.ofNat

namespace Operator

def word : Operator → String
  | product => "product"
  | quotient => "quotient"

def ofJson? (j : Json) : Option Operator := do
  let w ← j.word?
  [product, quotient].find? fun o => o.word = w

end Operator

namespace OperandView

def toJson (o : OperandView) : Json :=
  let module := match o.module with
    | some m => [("module", Json.string m)]
    | none => []
  .object ([("name", .string o.name)] ++ module ++ [("number", .bool o.number)])

def ofJson? (j : Json) : Option OperandView := do
  let fields ← j.record? ["name", "module", "number"]
  let name ← Json.required? fields "name" Json.toString?
  let module ← Json.optional? fields "module" Json.toString?
  let number ← Json.required? fields "number" Json.toBool?
  return { name, module, number }

end OperandView

namespace OperationView

def toJson (o : OperationView) : Json :=
  .object [("operator", .string o.operator.word), ("lhs", o.lhs.toJson), ("rhs", o.rhs.toJson),
    ("result", o.result.toJson)]

def ofJson? (j : Json) : Option OperationView := do
  let fields ← j.record? ["operator", "lhs", "rhs", "result"]
  let operator ← Json.required? fields "operator" Operator.ofJson?
  let lhs ← Json.required? fields "lhs" OperandView.ofJson?
  let rhs ← Json.required? fields "rhs" OperandView.ofJson?
  let result ← Json.required? fields "result" OperandView.ofJson?
  return { operator, lhs, rhs, result }

end OperationView

namespace UnitView

def fieldNames : List String :=
  ["name", "module", "kind", "numeric_type", "one", "zero", "dimension", "factor",
    "relative_factor", "format", "tags", "family", "prime", "relatives", "operations", "valid"]

def toJson (u : UnitView) : Json :=
  .object (fieldNames.zip
    [.string u.name, Json.orNull .string u.module, u.kind.toJson, .string u.numericType,
      .string u.one, .string u.zero, u.dimension.toJson, u.factor.toJson,
      Json.orNull NumeralExpr.toJson u.relativeFactor, .string u.format, Json.strings u.tags,
      Json.orNull FamilyId.toJson u.family, Json.orNull .string u.prime,
      Json.strings u.relatives, .array (u.operations.map OperationView.toJson),
      .bool u.valid])

def ofJson? (j : Json) : Option UnitView := do
  let fields ← j.record? fieldNames
  let name ← Json.required? fields "name" Json.toString?
  let module ← Json.optional? fields "module" Json.toString?
  let kind ← Json.required? fields "kind" NumericKind.ofJson?
  let numericType ← Json.required? fields "numeric_type" Json.toString?
  let one ← Json.required? fields "one" Json.toString?
  let zero ← Json.required? fields "zero" Json.toString?
  let dimension ← Json.required? fields "dimension" DimensionExpr.ofJson?
  let factor ← Json.required? fields "factor" NumeralExpr.ofJson?
  let relativeFactor ← Json.optional? fields "relative_factor" NumeralExpr.ofJson?
  let format ← Json.required? fields "format" Json.toString?
  let tags ← Json.required? fields "tags" (Json.listOf? Json.toString?)
  let family ← Json.optional? fields "family" FamilyId.ofJson?
  let prime ← Json.optional? fields "prime" Json.toString?
  let relatives ← Json.required? fields "relatives" (Json.listOf? Json.toString?)
  let operations ← Json.required? fields "operations" (Json.listOf? OperationView.ofJson?)
  let valid ← Json.required? fields "valid" Json.toBool?
  return { name, module, kind, numericType, one, zero, dimension, factor, relativeFactor,
           format, tags, family, prime, relatives, operations, valid }

end UnitView

namespace ScaleView

def fieldNames : List String :=
  ["name", "module", "unit", "offset", "ref_point", "ref_point_normalized", "format", "family",
    "prime", "relatives", "valid"]

def toJson (s : ScaleView) : Json :=
  .object (fieldNames.zip
    [.string s.name, Json.orNull .string s.module, Json.orNull .string s.unit, s.offset.toJson,
      .string s.refPoint, .bool s.refPointImplicit, .string s.format,
      Json.orNull FamilyId.toJson s.family, Json.orNull .string s.prime,
      Json.strings s.relatives, .bool s.valid])

def ofJson? (j : Json) : Option ScaleView := do
  let fields ← j.record? fieldNames
  let name ← Json.required? fields "name" Json.toString?
  let module ← Json.optional? fields "module" Json.toString?
  let unit ← Json.optional? fields "unit" Json.toString?
  let offset ← Json.required? fields "offset" NumeralExpr.ofJson?
  let refPoint ← Json.required? fields "ref_point" Json.toString?
  let refPointImplicit ← Json.required? fields "ref_point_normalized" Json.toBool?
  let format ← Json.required? fields "format" Json.toString?
  let family ← Json.optional? fields "family" FamilyId.ofJson?
  let prime ← Json.optional? fields "prime" Json.toString?
  let relatives ← Json.required? fields "relatives" (Json.listOf? Json.toString?)
  let valid ← Json.required? fields "valid" Json.toBool?
  return { name, module, unit, offset, refPoint, refPointImplicit, format, family, prime,
           relatives, valid }

end ScaleView

namespace View

def toJson (v : View) : Json :=
  let externals := if v.externals.isEmpty then []
    else [("externals", Json.array (v.externals.map UnitView.toJson))]
  .object ([("units", .array (v.units.map UnitView.toJson))] ++ externals
    ++ [("scales", .array (v.scales.map ScaleView.toJson)),
      ("operations", .array (v.operations.map OperationView.toJson))])

def ofJson? (j : Json) : Option View := do
  let fields ← j.record? ["units", "externals", "scales", "operations"]
  let units ← Json.required? fields "units" (Json.listOf? UnitView.ofJson?)
  let externals ← Json.withDefault? fields "externals" [] (Json.listOf? UnitView.ofJson?)
  let scales ← Json.required? fields "scales" (Json.listOf? ScaleView.ofJson?)
  let operations ← Json.required? fields "operations" (Json.listOf? OperationView.ofJson?)
  return { units, externals, scales, operations }

def write (v : View) (spacing : Json.Spacing) : String := v.toJson.write spacing

def read? (text : String) : Option View := do ofJson? (← Json.read? text)

end View

end Quantity
