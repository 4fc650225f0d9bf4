import Quantity.Model.Basic

/-!
# Descriptors

A descriptor says of a loaded unit or scale what later definitions need to know. What can be
worked out again, such as relatives and operations, is left out.
-/

namespace Quantity

/-- A unit of a loaded module. -/
structure UnitDescriptor where
  name : String
  module : String
  kind : NumericKind
  dimension : Dimension
  factor : Numeral
  /-- Whether the factor is a known value and not a stand-in for a symbolic one. -/
  constant : Bool := true
  format : String
  tags : List String
  family : FamilyId
  deriving DecidableEq

def UnitDescriptor.symbol (u : UnitDescriptor) : String := u.tags.headD u.name

/-- A scale of a loaded module. -/
structure ScaleDescriptor where
  name : String
  module : String
  unit : String
  /-- The module of the unit. -/
  unitModule : String
  offset : Numeral
  refPoint : Option String
  format : String
  family : FamilyId
  deriving DecidableEq

/-- A unit of a model as a unit of a module; none if the unit has no meaning. -/
def UnitEntry.describe? (module : String) (u : UnitEntry) : Option UnitDescriptor :=
  if u.valid then
    u.family.map fun family =>
      { name := u.name
        module
        kind := u.kind
        dimension := u.dimension.value
        factor := u.factor.value
        constant := u.factor.constant
        format := u.format
        tags := u.tags
        family }
  else none

/-- A scale of a model as a scale of a module; none if the scale has no meaning. The unit of
the scale belongs to its own module if it was loaded before. -/
def ScaleEntry.describe? (m : Model) (module : String) (s : ScaleEntry) :
    Option ScaleDescriptor :=
  if s.valid then do
    let unit ← s.unit.bind (m.units[·]?)
    let family ← s.family
    some
      { name := s.name
        module
        unit := unit.name
        unitModule := unit.origin.module?.getD module
        offset := s.offset.value
        refPoint := s.refPoint
        format := s.format
        family }
  else none

end Quantity
