import Quantity.Source.Unit

/-!
# The source of scales

A value on a scale lies its number plus the offset above the point of reference, measured in
the unit of the scale. Conversions between scales go through that level.
-/

namespace Quantity.Source

open Quantity.Text (quoted)

/-- Why a scale cannot be generated. -/
inductive ScaleFault where
  | noUnit (name : String)
  | unknownUnit (name : String)
  | noFamily (name : String)
  deriving DecidableEq, Repr

/-- The text of a fault. -/
def ScaleFault.message : ScaleFault → String
  | noUnit name => "Scale '" ++ name ++ "' has no unit"
  | unknownUnit name => "Unknown unit '" ++ name ++ "'"
  | noFamily name => "Scale '" ++ name ++ "' has no family"

/-- A scale with what was worked out for its file. -/
structure ScaleSource where
  scale : ScaleView
  unit : UnitView
  /-- The type of the unit. -/
  unitType : String
  family : FamilyId
  conversions : List Conversion
  deriving DecidableEq

/-- The conversion from a relative of a scale. There is none from a scale that is not shown or
whose numbers are of another kind. -/
def scaleConversion? (v : View) (s : ScaleView) (unit : UnitView) (unitType : String)
    (relative : String) : Option Conversion := do
  let other ← v.scale? relative
  let found ← other.unit.bind v.unit?
  if found.unit.kind ≠ unit.kind then none
  else
    let level := if found.unit.name = unit.name then "value.level()"
      else unitType ++ "::from(value.level())"
    some ⟨identifier other.name, identifier s.name, "Self::from_level(" ++ level ++ ")"⟩

/-- The conversions in the file of a scale. -/
def scaleConversions (v : View) (s : ScaleView) (unit : UnitView) (unitType : String) :
    List Conversion :=
  s.relatives.filterMap (scaleConversion? v s unit unitType)

/-- Work out the file of a scale. -/
def scaleSource (v : View) (s : ScaleView) : Except ScaleFault ScaleSource := do
  let some unitName := s.unit | throw (.noUnit s.name)
  let some found := v.unit? unitName | throw (.unknownUnit unitName)
  let some family := s.family | throw (.noFamily s.name)
  let unitType := foundType found
  return ⟨s, found.unit, unitType, family, scaleConversions v s found.unit unitType⟩

/-! ### Lines -/

/-- The comment on a scale. -/
def scaleDocs (s : ScaleView) (unit : UnitView) (family : FamilyId) : Lines :=
  ["/// " ++ s.name ++ " scale in " ++ codeSpan unit.name, "///",
    "/// Reference point " ++ s.refPoint ++ (if s.refPointImplicit then " (implicit)" else "")
      ++ ", family " ++ toString family.toNat]

/-- The constants of a scale. -/
def scaleConstants (c : Config) (s : ScaleView) (num : String) (family : FamilyId) : Lines :=
  ["pub const NAME: &'static str = " ++ quoted s.name ++ ";",
      "pub const FORMAT: &'static str = " ++ quoted s.format ++ ";",
      "pub const REF_POINT: &'static str = " ++ quoted s.refPoint ++ ";",
      "pub const FAMILY: u32 = " ++ toString family.toNat ++ ";"]
    ++ onlyIf c.docs ["/// " ++ codeSpan s.offset.code]
    ++ ["pub const OFFSET: " ++ num ++ " = " ++ s.offset.value.literal ++ ";"]

/-- The methods that measure from the point of reference. -/
def levelMethods (unitType : String) : Lines :=
  ["/// Distance from the reference point"]
    ++ block ("pub fn level(self) -> " ++ unitType) [unitType ++ "(self.0 + Self::OFFSET)"]
    ++ apart (block ("pub fn from_level(level: " ++ unitType ++ ") -> Self")
      ["Self(level.0 - Self::OFFSET)"])

/-- A step on a scale, by a value of its unit. -/
def stepImpl (type unitType : String) (operator : OperatorTrait) : OperatorImpl :=
  { operator
    type
    argument := some unitType
    output := "Self"
    body := ["Self(self.0 " ++ operator.symbol ++ " rhs.0)"] }

/-- The distance of two values on a scale. -/
def distanceImpl (type unitType : String) : OperatorImpl :=
  { operator := .sub
    type
    output := unitType
    body := [unitType ++ "(self.0 - rhs.0)"] }

/-- The lines of the file of a scale. -/
def ScaleSource.lines (c : Config) (source : ScaleSource) : Lines :=
  let s := source.scale
  let type := identifier s.name
  let num := source.unit.numericType
  c.fileHeader (s.name ++ " scale")
    ++ onlyIf c.docs (scaleDocs s source.unit source.family)
    ++ c.wrapperDerives
    ++ ["pub struct " ++ type ++ "(pub " ++ num ++ ");"]
    ++ apart (block ("impl " ++ type)
      (scaleConstants c s num source.family
        ++ apart (wrapperMethods num)
        ++ apart (levelMethods source.unitType)))
    ++ apart (displayImpl type (source.unitType ++ "::SYMBOL"))
    ++ apart (stepImpl type source.unitType .add).lines
    ++ apart (stepImpl type source.unitType .sub).lines
    ++ apart (distanceImpl type source.unitType).lines
    ++ source.conversions.flatMap fun conversion => apart conversion.lines

end Quantity.Source
