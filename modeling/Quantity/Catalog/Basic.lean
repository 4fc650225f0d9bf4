import Quantity.Catalog.Descriptor

/-!
# Catalogs

A catalog lists the units and scales of all loaded modules. Modules are only ever added, each
under a name of its own. A later unit or scale hides an earlier one of the same name.
-/

namespace Quantity

/-- The units and scales that a module brings along. -/
structure LoadedModule where
  name : String
  units : List UnitDescriptor
  scales : List ScaleDescriptor
  deriving DecidableEq

/-- The module of all units and scales of a model. -/
def LoadedModule.ofModel (name : String) (m : Model) : LoadedModule :=
  ⟨name, m.units.filterMap (·.describe? name), m.scales.filterMap (·.describe? m name)⟩

/-- The units and scales of the loaded modules. -/
structure Catalog where
  units : List UnitDescriptor := []
  scales : List ScaleDescriptor := []
  modules : List String := []
  deriving DecidableEq

namespace Catalog

def hasModule (c : Catalog) (name : String) : Bool := c.modules.contains name

def append (c : Catalog) (m : LoadedModule) : Catalog :=
  ⟨c.units ++ m.units, c.scales ++ m.scales, c.modules ++ [m.name]⟩

def register? (c : Catalog) (m : LoadedModule) : Option Catalog :=
  if c.hasModule m.name then none else some (c.append m)

def isEmpty (c : Catalog) : Bool := c.units.isEmpty && c.scales.isEmpty

def unit? (c : Catalog) (name : String) : Option UnitDescriptor :=
  c.units.reverse.find? (·.name = name)

def unitByTag? (c : Catalog) (tag : String) : Option UnitDescriptor :=
  c.units.reverse.find? (·.tags.contains tag)

def scale? (c : Catalog) (name : String) : Option ScaleDescriptor :=
  c.scales.reverse.find? (·.name = name)

def familyUnits (c : Catalog) (f : FamilyId) : List UnitDescriptor :=
  c.units.filter (·.family = f)

def familyScales (c : Catalog) (f : FamilyId) : List ScaleDescriptor :=
  c.scales.filter (·.family = f)

def maxFamily? (c : Catalog) : Option FamilyId :=
  (c.units.map (·.family) ++ c.scales.map (·.family)).max?

end Catalog

end Quantity
