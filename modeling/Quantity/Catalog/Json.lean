import Quantity.Catalog.Build
import Quantity.View.Json

/-!
# JSON forms of descriptors and artifacts

The manifest of a stored module is an artifact in JSON.
-/

namespace Quantity

open Quantity.Text (Json)

namespace UnitDescriptor

def fieldNames : List String :=
  ["name", "module", "kind", "dimension", "factor", "constant", "format", "tags", "family"]

def toJson (u : UnitDescriptor) : Json :=
  .object (fieldNames.zip
    [.string u.name, .string u.module, u.kind.toJson, u.dimension.toJson, u.factor.toJson,
      .bool u.constant, .string u.format, Json.strings u.tags, FamilyId.toJson u.family])

/-- A factor is taken for a known value if nothing else is said. -/
def ofJson? (j : Json) : Option UnitDescriptor := do
  let fields ← j.record? fieldNames
  let name ← Json.required? fields "name" Json.toString?
  let module ← Json.required? fields "module" Json.toString?
  let kind ← Json.required? fields "kind" NumericKind.ofJson?
  let dimension ← Json.required? fields "dimension" Dimension.ofJson?
  let factor ← Json.required? fields "factor" Numeral.ofJson?
  let constant ← Json.withDefault? fields "constant" true Json.toBool?
  let format ← Json.required? fields "format" Json.toString?
  let tags ← Json.required? fields "tags" (Json.listOf? Json.toString?)
  let family ← Json.required? fields "family" FamilyId.ofJson?
  return { name, module, kind, dimension, factor, constant, format, tags, family }

end UnitDescriptor

namespace ScaleDescriptor

def fieldNames : List String :=
  ["name", "module", "unit", "unit_module", "offset", "ref_point", "format", "family"]

def toJson (s : ScaleDescriptor) : Json :=
  .object (fieldNames.zip
    [.string s.name, .string s.module, .string s.unit, .string s.unitModule, s.offset.toJson,
      Json.orNull .string s.refPoint, .string s.format, FamilyId.toJson s.family])

def ofJson? (j : Json) : Option ScaleDescriptor := do
  let fields ← j.record? fieldNames
  let name ← Json.required? fields "name" Json.toString?
  let module ← Json.required? fields "module" Json.toString?
  let unit ← Json.required? fields "unit" Json.toString?
  let unitModule ← Json.required? fields "unit_module" Json.toString?
  let offset ← Json.required? fields "offset" Numeral.ofJson?
  let refPoint ← Json.optional? fields "ref_point" Json.toString?
  let format ← Json.required? fields "format" Json.toString?
  let family ← Json.required? fields "family" FamilyId.ofJson?
  return { name, module, unit, unitModule, offset, refPoint, format, family }

end ScaleDescriptor

namespace Artifact

def fieldNames : List String := ["module", "source", "references", "units", "scales"]

def toJson (a : Artifact) : Json :=
  .object (fieldNames.zip
    [.string a.module, .string a.source, Json.strings a.references,
      .array (a.units.map UnitDescriptor.toJson), .array (a.scales.map ScaleDescriptor.toJson)])

def ofJson? (j : Json) : Option Artifact := do
  let fields ← j.record? fieldNames
  let module ← Json.required? fields "module" Json.toString?
  let source ← Json.required? fields "source" Json.toString?
  let references ← Json.withDefault? fields "references" [] (Json.listOf? Json.toString?)
  let units ← Json.required? fields "units" (Json.listOf? UnitDescriptor.ofJson?)
  let scales ← Json.required? fields "scales" (Json.listOf? ScaleDescriptor.ofJson?)
  return { module, source, references, units, scales }

def write (a : Artifact) : String := a.toJson.write .indented

def read? (text : String) : Option Artifact := do ofJson? (← Json.read? text)

end Artifact

end Quantity
