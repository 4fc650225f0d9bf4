import Quantity.Catalog.Basic

/-!
# Restoring a model

Later definitions refer to the units of a catalog. So the catalog is turned back into a model
first, in which every unit and scale has its family and nothing else is resolved yet.
-/

namespace Quantity

/-- Why a descriptor has no place in a model. -/
inductive RestoreFault where
  | factorKind (found expected : NumericKind)
  | zeroFactor
  | unknownUnit (unit module : String)
  | offsetKind (found expected : NumericKind)
  deriving DecidableEq, Repr

def RestoreFault.message : RestoreFault → String
  | factorKind found expected =>
    "factor is " ++ found.keyword ++ ", expected " ++ expected.keyword
  | zeroFactor => "zero conversion factor"
  | unknownUnit unit module => "unknown unit '" ++ unit ++ "' of module '" ++ module ++ "'"
  | offsetKind found expected =>
    "offset is " ++ found.keyword ++ ", expected " ++ expected.keyword

/-- A descriptor that cannot be restored. -/
structure RestoreError where
  name : String
  fault : RestoreFault
  deriving DecidableEq, Repr

def RestoreError.message (e : RestoreError) : String :=
  "Cannot decompile '" ++ e.name ++ "': " ++ e.fault.message

def UnitDescriptor.restore (u : UnitDescriptor) : Except RestoreError UnitEntry :=
  if u.factor.kind ≠ u.kind then .error ⟨u.name, .factorKind u.factor.kind u.kind⟩
  else if u.factor.isZero then .error ⟨u.name, .zeroFactor⟩
  else .ok
    { name := u.name
      origin := .restored u.module
      kind := u.kind
      dimension := ⟨u.dimension, u.name ++ "::DIMENSION"⟩
      factor := ⟨u.constant, u.factor, u.name ++ "::FACTOR"⟩
      format := u.format
      tags := u.tags
      family := some u.family
      valid := true }

/-- The scale of a descriptor, in a catalog with the given units. -/
def ScaleDescriptor.restore (units : List UnitDescriptor) (s : ScaleDescriptor) :
    Except RestoreError ScaleEntry :=
  let owned (u : UnitDescriptor) : Bool := u.module = s.unitModule && u.name = s.unit
  match (Model.places units owned).getLast?, units.reverse.find? owned with
  | some place, some unit =>
    if s.offset.kind ≠ unit.kind then .error ⟨s.name, .offsetKind s.offset.kind unit.kind⟩
    else .ok
      { name := s.name
        origin := .restored s.module
        unit := some place
        offset := ⟨true, s.offset, s.name ++ "::OFFSET"⟩
        refPoint := s.refPoint
        format := s.format
        family := some s.family
        valid := true }
  | _, _ => .error ⟨s.name, .unknownUnit s.unit s.unitModule⟩

namespace Catalog

def restore (c : Catalog) : Except RestoreError Model := do
  let units ← c.units.mapM UnitDescriptor.restore
  let scales ← c.scales.mapM (ScaleDescriptor.restore c.units)
  return { units, scales }

/-- The family id behind those of the entries, if there is one. -/
def nextFamily? (c : Catalog) : Option FamilyId :=
  match c.maxFamily? with
  | some f => f.next?
  | none => some 0

end Catalog

end Quantity
