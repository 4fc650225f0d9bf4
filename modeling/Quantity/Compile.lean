import Quantity.Declaration.Parser
import Quantity.Model.Elaborate
import Quantity.Model.Family
import Quantity.Model.Operations

/-!
# Compiling definitions

Definitions are read, given their meaning, sorted into families and connected by operations.
They can be added to a model that was compiled or restored before.
-/

namespace Quantity

/-- A model and what was reported on the way to it. -/
structure Compilation where
  model : Model
  diagnostics : Diagnostics

def Compilation.isSuccess (c : Compilation) : Bool := !c.diagnostics.hasErrors

/-- Put a text behind a model. -/
def Model.extend (m : Model) (text : String) (options : Options) :
    Except CompileError Compilation := do
  let m := m.beginLate
  let (declarations, diagnostics) := Declarations.read options.source text
  let (m, diagnostics) ← Elaborate.elaborate options m diagnostics declarations
  let some (m, diagnostics) := m.resolveFamilies options.firstFamily diagnostics
    | throw .familyOverflow
  return ⟨m.resolveOperations, diagnostics⟩

/-- Compile a text by itself. -/
def compile (text : String) (options : Options) : Except CompileError Compilation :=
  ({} : Model).extend text options

end Quantity
