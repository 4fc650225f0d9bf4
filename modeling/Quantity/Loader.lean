import Quantity.Catalog.Restore
import Quantity.Catalog.Stale
import Quantity.Catalog.Store
import Quantity.Compile
import Quantity.Source.Bundle
import Quantity.View.Select

/-!
# Late loading

Definitions that come after a program was built are loaded as a module of their own. The
catalog is restored as a model, the definitions are compiled on top of it, source is generated
for what they add, the module is built, loaded and stored, and at last published in the
catalog. Whatever goes wrong before leaves the catalog as it was.
-/

namespace Quantity

open Quantity.Files

/-- How late definitions are loaded. -/
structure LoaderConfig where
  /-- The beginning of the names of loaded modules. -/
  moduleStart : String := "late"
  /-- Modules that the host brings along for the builder. -/
  references : List String := []
  redeclaration : Redeclaration := .newFamily
  source : Source.Config := {}
  deriving DecidableEq, Repr

/-- Whether and when a load is called off. It is looked at twice: before the module is built
and after it is loaded. -/
inductive Cancellation where
  | never
  | whileBuilding
  | beforehand
  deriving DecidableEq, Repr

/-- Whether the load is called off before the module is built. -/
def Cancellation.beforeBuild (c : Cancellation) : Bool := c = .beforehand

/-- Whether the load is called off once the module is loaded. -/
def Cancellation.afterBuild (c : Cancellation) : Bool := c ≠ .never

/-- Why a load failed. -/
inductive LoadError where
  | store (cause : StoreError)
  | restore (cause : RestoreError)
  | compile (cause : CompileError)
  /-- The definitions have errors. -/
  | definitions (diagnostics : Diagnostics)
  /-- The definitions add nothing. -/
  | empty
  | generate (cause : Source.GenerateError)
  | build (module : String) (diagnostics : Diagnostics)
  | duplicateModule (name : String)
  | cancelled

namespace LoadError

def message : LoadError → String
  | store (.system path cause) => "IO error on " ++ path ++ ": " ++ cause.message
  | store (.definitionsMissing path) => "IO error on " ++ path ++ ": definitions file not found"
  | store .manifest => "Invalid module manifest"
  | restore cause => cause.message
  | compile cause => cause.message
  | definitions ds => "Late definitions have " ++ toString ds.errorCount ++ " error(s)"
  | empty => "Late definitions declare no units or scales"
  | generate cause => "Code generation failed: " ++ cause.message
  | build module ds =>
    "Building module '" ++ module ++ "' failed with " ++ toString ds.errorCount ++ " error(s)"
  | duplicateModule name => "Module '" ++ name ++ "' is already loaded"
  | cancelled => "Late load cancelled"

/-- The error as a report: the diagnostics behind it, or else one with its words. -/
def diagnostics (e : LoadError) : Diagnostics :=
  let report := Diagnostic.error .backend e.message
  match e with
  | definitions ds | build _ ds => ds
  | store (.system path _) | store (.definitionsMissing path) =>
    .ofDiagnostic { report with source := some path }
  | _ => .ofDiagnostic report

end LoadError

/-- What a load added. -/
structure LoadReport where
  module : String
  units : List String
  scales : List String
  /-- Whether the module came from the store. -/
  stored : Bool
  diagnostics : Diagnostics
  deriving DecidableEq, Repr

/-- The catalog and the disk of a program. -/
structure Host where
  catalog : Catalog := {}
  disk : Disk := {}
  deriving DecidableEq

/-- The end of a load, and what happened on the way. -/
structure Outcome where
  result : Except LoadError LoadReport
  host : Host
  /-- Why a stored module was set aside. -/
  stale : Option StaleReason := none
  /-- What the builder was asked for. -/
  request : Option BuildRequest := none

/-- A load by a builder. -/
structure Loader where
  config : LoaderConfig := {}
  builder : Builder := .ofDescriptors
  /-- Where modules of definitions files are kept. -/
  store : Option Store := none

namespace Loader

def fail (host : Host) (e : LoadError) : Outcome := { result := .error e, host }

/-! ### From definitions to a build request -/

/-- The modules that the builder has to know: those of the host and those of the externals. -/
def references (given : List String) (v : View) : List String :=
  (v.externals.filterMap (·.module)).foldl
    (fun known m => if known.contains m then known else known ++ [m]) given

/-- The late entries of a model as the parts of a module. -/
def requestOf (module source : String) (references : List String) (m : Model) : BuildRequest :=
  { module
    source
    references
    units := (m.units.drop m.lateUnits).filterMap (·.describe? module)
    scales := (m.scales.drop m.lateScales).filterMap (·.describe? m module) }

/-- The options with which late definitions are compiled. -/
def options (l : Loader) (firstFamily : FamilyId) (source : String) : Options :=
  { firstFamily
    redeclaration := l.config.redeclaration
    source := some source }

/-- Compile definitions on top of a catalog and generate their source. -/
def prepare (l : Loader) (c : Catalog) (module source text : String) :
    Except LoadError (BuildRequest × Diagnostics) := do
  let model ← c.restore.mapError .restore
  let some next := c.nextFamily? | throw (.compile .familyOverflow)
  let compilation ← (model.extend text (l.options next source)).mapError .compile
  if !compilation.isSuccess then throw (.definitions compilation.diagnostics)
  let m := compilation.model
  if m.lateUnits = m.units.length && m.lateScales = m.scales.length then throw .empty
  let v := m.lateView
  let bundle ← (Source.generate { l.config.source with moduleName := module } v).mapError
    .generate
  return (requestOf module bundle.merged (references l.config.references v) m,
    compilation.diagnostics)

/-! ### Publishing -/

/-- Store an artifact, if there is a store and the definitions came from a file. -/
def persist (l : Loader) (isFile : Bool) (d : Disk) (module : String) (a : Artifact) :
    Except StoreError Unit × Disk :=
  match l.store with
  | some store => if isFile then store.write d module a else (.ok (), d)
  | none => (.ok (), d)

def reportOn (module : String) (a : Artifact) (stored : Bool) (ds : Diagnostics) : LoadReport :=
  { module, units := a.units.map (·.name), scales := a.scales.map (·.name), stored,
    diagnostics := ds }

/-- Build, load, store and publish a prepared module. -/
def buildAndPublish (l : Loader) (cancellation : Cancellation) (isFile : Bool) (host : Host)
    (module : String) (request : BuildRequest) (ds : Diagnostics) : Outcome :=
  if cancellation.beforeBuild then fail host .cancelled
  else
    let failed (e : LoadError) : Outcome := { fail host e with request := some request }
    match l.builder.build request with
    | .error report => failed (.build module report)
    | .ok artifact =>
      match l.builder.load artifact with
      | .error report => failed (.build module report)
      | .ok loaded =>
        if cancellation.afterBuild then failed .cancelled
        else
          match l.persist isFile host.disk module artifact with
          | (.error e, disk) => { failed (.store e) with host := { host with disk } }
          | (.ok (), disk) =>
            { result := .ok (reportOn module request false ds)
              host := { catalog := host.catalog.append loaded, disk }
              request := some request }

def compileAndPublish (l : Loader) (cancellation : Cancellation) (isFile : Bool) (host : Host)
    (module source text : String) : Outcome :=
  match l.prepare host.catalog module source text with
  | .error e => fail host e
  | .ok (request, ds) => l.buildAndPublish cancellation isFile host module request ds

def publishStored (l : Loader) (host : Host) (a : Artifact) : Outcome :=
  match l.builder.load a with
  | .error report => fail host (.build a.module report)
  | .ok loaded =>
    { result := .ok (reportOn a.module a true {})
      host := { host with catalog := host.catalog.append loaded } }

/-! ### Loading -/

def moduleName (l : Loader) (ending : String) : String := l.config.moduleStart ++ "_" ++ ending

def fileModule (l : Loader) (path : String) : String :=
  l.moduleName (((Path.fileStem? path).map Text.snakeCase).getD "")

/-- The name of the module of a definitions text: the first number from the number of modules
on whose name is free. One of the first candidates is free, since there are more of them than
modules. -/
def textModule (l : Loader) (modules : List String) : String :=
  let candidates := (List.range (modules.length + 1)).map fun k =>
    l.moduleName (toString (modules.length + k))
  (candidates.find? fun name => !modules.contains name).getD l.config.moduleStart

def loadText (l : Loader) (cancellation : Cancellation) (host : Host) (text : String) :
    Outcome :=
  l.compileAndPublish cancellation false host (l.textModule host.catalog.modules)
    "<definitions string>" text

/-- The stored module of a definitions file, if there is a fresh one. -/
def stored? (l : Loader) (d : Disk) (path module : String) :
    Except StoreError (Option Artifact) := do
  match l.store with
  | none => return none
  | some store =>
    if ← store.isFresh d path module then return some (← store.read d module) else return none

/-- Load definitions from a file by compiling them. -/
def loadSource (l : Loader) (cancellation : Cancellation) (host : Host) (path module : String) :
    Outcome :=
  match host.disk.read path with
  | .error e => fail host (.store (.system path e))
  | .ok text => l.compileAndPublish cancellation true host module path text

/-- Load definitions from a file. A stored module is taken if it is fresh and fits the
catalog. -/
def loadFile (l : Loader) (cancellation : Cancellation) (host : Host) (path : String) :
    Outcome :=
  let module := l.fileModule path
  if host.catalog.hasModule module then fail host (.duplicateModule module)
  else
    match l.stored? host.disk path module with
    | .error e => fail host (.store e)
    | .ok none => l.loadSource cancellation host path module
    | .ok (some a) =>
      match host.catalog.staleReason? l.config.references module a with
      | none => l.publishStored host a
      | some reason =>
        { l.loadSource cancellation host path module with stale := some reason }

end Loader

end Quantity
