import Quantity.Catalog.Build

/-!
# Stale modules

A stored module was built for the catalog of its day. It can be loaded into another catalog
only if that catalog would have led to the same families: a family of the module is either
beyond those of the catalog, and then no older family may have a claim to its members, or it
is a family of the catalog that its members fit into.
-/

namespace Quantity

/-- Why a stored module does not fit a catalog. -/
inductive StaleReason where
  | otherModule (stored : String)
  | moduleMissing (name : String)
  | unitBelongs (unit : String)
  | unitAllocation (family : FamilyId) (unit : String)
  | unitMissing (unit scale : String)
  | scaleBelongs (scale : String)
  | scaleAllocation (family : FamilyId) (scale : String)
  deriving DecidableEq, Repr

def StaleReason.message : StaleReason → String
  | otherModule stored => "stored as module '" ++ stored ++ "'"
  | moduleMissing name => "module '" ++ name ++ "' is not loaded"
  | unitBelongs unit => "unit '" ++ unit ++ "' belongs to an existing family"
  | unitAllocation family unit =>
    "family " ++ toString family.toNat ++ " of unit '" ++ unit ++ "' is allocated differently"
  | unitMissing unit scale =>
    "unit '" ++ unit ++ "' of scale '" ++ scale ++ "' is not loaded"
  | scaleBelongs scale => "scale '" ++ scale ++ "' belongs to an existing family"
  | scaleAllocation family scale =>
    "family " ++ toString family.toNat ++ " of scale '" ++ scale ++ "' is allocated differently"

namespace Catalog

/-- Whether a family id lies beyond those of the catalog. -/
def isNewFamily (c : Catalog) (f : FamilyId) : Bool :=
  match c.maxFamily? with
  | some last => last < f
  | none => true

/-- Whether a new family of an artifact holds a unit whose name the catalog knows. Such a
family stays apart from the families of its dimension. -/
def redeclares (c : Catalog) (a : Artifact) (f : FamilyId) : Bool :=
  (a.units.filter (·.family = f)).any fun u => c.units.any (·.name = u.name)

def staleUnit? (c : Catalog) (a : Artifact) (u : UnitDescriptor) : Option StaleReason :=
  if c.isNewFamily u.family then
    if !c.redeclares a u.family && c.units.any (·.dimension = u.dimension) then
      some (.unitBelongs u.name)
    else none
  else
    let members := c.familyUnits u.family
    if members.isEmpty || members.any (·.dimension ≠ u.dimension)
        || c.scales.any (·.family = u.family) then
      some (.unitAllocation u.family u.name)
    else none

/-- The family of a unit, first among the units of the artifact, then in the catalog. -/
def familyOfUnit? (c : Catalog) (a : Artifact) (name module : String) : Option FamilyId :=
  ((a.units ++ c.units).find? fun u => u.name = name && u.module = module).map (·.family)

/-- Whether a scale has the point of reference of a stored one, and a unit of the family. -/
def sharesReference (c : Catalog) (a : Artifact) (s : ScaleDescriptor) (f : FamilyId)
    (other : ScaleDescriptor) : Bool :=
  other.refPoint.isSome && other.refPoint = s.refPoint
    && c.familyOfUnit? a other.unit other.unitModule = some f

def staleScale? (c : Catalog) (a : Artifact) (s : ScaleDescriptor) : Option StaleReason :=
  match c.familyOfUnit? a s.unit s.unitModule with
  | none => some (.unitMissing s.unit s.name)
  | some f =>
    let shares := c.sharesReference a s f
    if c.isNewFamily s.family then
      if c.scales.any shares then some (.scaleBelongs s.name) else none
    else
      let members := c.familyScales s.family
      if members.isEmpty || !members.all shares || c.units.any (·.family = s.family) then
        some (.scaleAllocation s.family s.name)
      else none

/-- Why a stored artifact cannot be loaded as a module, if the host brings along the modules
`references`. -/
def staleReason? (c : Catalog) (references : List String) (module : String) (a : Artifact) :
    Option StaleReason :=
  if a.module ≠ module then some (.otherModule a.module)
  else
    let missing := a.references.find? fun r => !references.contains r && !c.hasModule r
    (missing.map .moduleMissing)
      <|> a.units.findSome? (c.staleUnit? a)
      <|> a.scales.findSome? (c.staleScale? a)

end Catalog

end Quantity
