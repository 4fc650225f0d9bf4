import Quantity.Catalog.Basic
import Quantity.Diagnostic

/-!
# Building modules

To turn generated source into loadable types is up to the host: it brings a builder. A host
that cannot build code at run time takes the descriptors themselves for the types.
-/

namespace Quantity

/-- A built module, in a form that can be stored and loaded again. -/
structure Artifact where
  module : String
  source : String
  /-- The modules that the source refers to. -/
  references : List String := []
  units : List UnitDescriptor
  scales : List ScaleDescriptor
  deriving DecidableEq

/-- What a builder is asked for: the parts of the module to be built. -/
abbrev BuildRequest := Artifact

/-- A way to build modules and to load built ones. -/
structure Builder where
  build : BuildRequest → Except Diagnostics Artifact
  load : Artifact → Except Diagnostics LoadedModule

namespace Artifact

/-- The report on the entries that belong to another module. -/
def foreignEntries (a : Artifact) : Diagnostics :=
  let owners := a.units.map (fun u => (u.name, u.module))
    ++ a.scales.map (fun s => (s.name, s.module))
  let foreign := owners.filter fun (_, owner) => owner ≠ a.module
  Diagnostics.pushAll { source := some a.module } <| foreign.map fun (name, owner) =>
    .error .backend
      ("'" ++ name ++ "' belongs to module '" ++ owner ++ "', not '" ++ a.module ++ "'")

/-- A value that is given only if every entry belongs to the module. -/
def ifOwn {α : Type} (a : Artifact) (value : α) : Except Diagnostics α :=
  let report := a.foreignEntries
  if report.hasErrors then .error report else .ok value

end Artifact

/-- The builder whose types are the descriptors themselves. -/
def Builder.ofDescriptors : Builder :=
  { build := fun request => request.ifOwn request
    load := fun a => a.ifOwn ⟨a.module, a.units, a.scales⟩ }

end Quantity
