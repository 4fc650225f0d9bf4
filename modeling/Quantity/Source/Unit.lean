import Quantity.Source.Operation
import Quantity.Text.Quoted

/-!
# The source of units

The file of a unit holds its type with the constants, the arithmetic on its values, the
conversions from its relatives and the operations that it hosts.
-/

namespace Quantity.Source

open Quantity.Text (quoted)

/-- Why a unit cannot be generated. -/
inductive UnitFault where
  | noFamily (name : String)
  | operation (operation : OperationView) (cause : OperationError)
  deriving DecidableEq, Repr

/-- The message, and those of its causes. -/
def UnitFault.chain : UnitFault → List String
  | noFamily name => ["Unit '" ++ name ++ "' has no family"]
  | operation o cause => ("Failed to generate operation " ++ o.text) :: cause.chain

/-- A unit with what was worked out for its file. -/
structure UnitSource where
  unit : UnitView
  family : FamilyId
  conversions : List Conversion
  operations : List OperatorImpl
  deriving DecidableEq

/-- The type of a unit that was found. -/
def foundType (f : FoundUnit) : String :=
  pathIn (if f.external then f.unit.module else none) f.unit.name

/-! ### Conversions -/

/-- The conversion between units by the ratio of their factors. -/
def unitConversion (target source : String) : Conversion :=
  ⟨source, target,
    target ++ "(value.0 * (" ++ source ++ "::FACTOR / " ++ target ++ "::FACTOR))"⟩

/-- The conversions between a unit and one of its relatives. Those that lead to an external
unit belong here too, since its own file is already written. -/
def relativeConversions (v : View) (u : UnitView) (relative : String) : List Conversion :=
  match v.unit? relative with
  | some found =>
    let type := identifier u.name
    if found.unit.kind ≠ u.kind then []
    else if found.external then
      [unitConversion type (foundType found), unitConversion (foundType found) type]
    else [unitConversion type (foundType found)]
  | none => []

/-- The conversions in the file of a unit. -/
def unitConversions (v : View) (u : UnitView) : List Conversion :=
  u.relatives.flatMap (relativeConversions v u)

/-! ### Operations -/

/-- The operations in the file of a unit. -/
def hostedOperations (v : View) (u : UnitView) : List OperationView :=
  v.operations.filter fun o => host? v o = some u.name

/-- One of the operations in the file of a unit. -/
def hostedImpl (v : View) (o : OperationView) : Except UnitFault OperatorImpl :=
  (operationImpl v o).mapError (.operation o)

/-- Work out the file of a unit. -/
def unitSource (v : View) (u : UnitView) : Except UnitFault UnitSource := do
  let some family := u.family | throw (.noFamily u.name)
  let operations ← (hostedOperations v u).mapM (hostedImpl v)
  return ⟨u, family, unitConversions v u, operations⟩

/-! ### Lines -/

/-- The exponents of a dimension. -/
def exponentArray (d : Dimension) : String :=
  "[" ++ String.intercalate ", " (d.exponents.map toString) ++ "]"

/-- The comment on a unit. -/
def unitDocs (u : UnitView) (family : FamilyId) : Lines :=
  ["/// " ++ u.name ++ " (" ++ codeSpan u.symbol ++ ")", "///",
    "/// Dimension " ++ u.dimension.value.text ++ ", family " ++ toString family.toNat,
    match u.prime with
    | some prime => "/// Relative of " ++ codeSpan prime
    | none => "/// Prime of its family"]

/-- The comment on a factor. -/
def factorDocs (u : UnitView) : Lines :=
  [if u.factor.constant then "/// " ++ codeSpan u.factor.code
    else "/// Placeholder for the symbolic factor " ++ codeSpan u.factor.code]

/-- The constants of a unit. -/
def unitConstants (c : Config) (u : UnitView) (family : FamilyId) : Lines :=
  ["pub const NAME: &'static str = " ++ quoted u.name ++ ";",
      "pub const SYMBOL: &'static str = " ++ quoted u.symbol ++ ";",
      "pub const SYMBOLS: &'static [&'static str] = &["
        ++ String.intercalate ", " (u.tags.map quoted) ++ "];",
      "pub const FORMAT: &'static str = " ++ quoted u.format ++ ";",
      "pub const FAMILY: u32 = " ++ toString family.toNat ++ ";"]
    ++ onlyIf c.docs ["/// " ++ codeSpan u.dimension.code]
    ++ ["pub const DIMENSION: Dimension = Dimension::new("
      ++ exponentArray u.dimension.value ++ ");"]
    ++ onlyIf c.docs (factorDocs u)
    ++ ["pub const FACTOR: " ++ u.numericType ++ " = " ++ u.factor.value.literal ++ ";",
      "pub const ONE: Self = Self(" ++ u.one ++ ");",
      "pub const ZERO: Self = Self(" ++ u.zero ++ ");"]

/-- The change of sign of a type that wraps a number. -/
def negImpl (type : String) : Lines :=
  block ("impl std::ops::Neg for " ++ type)
    (["type Output = Self;"] ++ apart (block "fn neg(self) -> Self" ["Self(-self.0)"]))

/-- An operator on two numbers of the same wrapper. -/
def sumImpl (type : String) (operator : OperatorTrait) : OperatorImpl :=
  { operator
    type
    output := "Self"
    body := ["Self(self.0 " ++ operator.symbol ++ " rhs.0)"] }

/-- An operator on a wrapped number and a plain one. -/
def scaleImpl (type num : String) (operator : OperatorTrait) : OperatorImpl :=
  { operator
    type
    argument := some num
    output := "Self"
    body := ["Self(self.0 " ++ operator.symbol ++ " rhs)"] }

/-- The product of a plain number and a wrapped one. -/
def leftScaleImpl (type num : String) : OperatorImpl :=
  { operator := .mul
    type := num
    argument := some type
    output := type
    body := [type ++ "(self * rhs.0)"] }

/-- The ratio of two values of a unit. -/
def ratioImpl (type num : String) : OperatorImpl :=
  { operator := .div
    type
    output := num
    body := ["self.0 / rhs.0"] }

/-- The operators on values of a unit. -/
def unitArithmetic (type num : String) : Lines :=
  apart (sumImpl type .add).lines
    ++ apart (sumImpl type .sub).lines
    ++ apart (negImpl type)
    ++ apart (scaleImpl type num .mul).lines
    ++ apart (leftScaleImpl type num).lines
    ++ apart (scaleImpl type num .div).lines
    ++ apart (ratioImpl type num).lines

/-- The lines of the file of a unit. -/
def UnitSource.lines (c : Config) (s : UnitSource) : Lines :=
  let u := s.unit
  let type := identifier u.name
  c.fileHeader (u.name ++ " unit")
    ++ onlyIf c.docs (unitDocs u s.family)
    ++ c.wrapperDerives
    ++ ["pub struct " ++ type ++ "(pub " ++ u.numericType ++ ");"]
    ++ apart (block ("impl " ++ type)
      (unitConstants c u s.family ++ apart (wrapperMethods u.numericType)))
    ++ apart (displayImpl type "Self::SYMBOL")
    ++ unitArithmetic type u.numericType
    ++ s.conversions.flatMap (fun conversion => apart conversion.lines)
    ++ s.operations.flatMap (fun operation => apart operation.lines)

end Quantity.Source
