import Quantity.Compile
import Quantity.Files.Access
import Quantity.Source.Bundle
import Quantity.View.Select

/-!
# From definitions files to source files
-/

namespace Quantity

open Quantity.Files

variable {m : Type → Type} [Monad m]

/-- Why a definitions file cannot be compiled at all. -/
inductive FileError where
  | system (cause : SystemError)
  | compile (cause : CompileError)
  deriving DecidableEq, Repr

def FileError.chain : FileError → List String
  | system cause => ["I/O error: " ++ cause.message, cause.message]
  | compile cause => [cause.message]

/-- Compile a definitions file. Its name stands in diagnostics, unless the options name the
source. -/
def compileFile (access : Access m) (file : String) (options : Options) :
    m (Except FileError Compilation) := do
  match ← access.read file with
  | .error e => return .error (.system e)
  | .ok text =>
    let options := { options with source := some (options.source.getD file) }
    return (compile text options).mapError .compile

/-- Why source files cannot be generated. -/
inductive GenerationError where
  | compiling (file : String) (cause : FileError)
  /-- The definitions have errors. -/
  | definitions (file : String) (diagnostics : Diagnostics)
  | generating (cause : Source.GenerateError)
  | creating (directory : String) (cause : SystemError)
  | writing (path : String) (cause : SystemError)
  deriving DecidableEq, Repr

namespace GenerationError

def chain : GenerationError → List String
  | compiling file cause => ("compiling " ++ file) :: cause.chain
  | definitions file ds =>
    [file ++ " has " ++ toString ds.errorCount ++ " error(s):\n" ++ ds.render]
  | generating cause => "running Rust generator" :: cause.chain
  | creating directory cause => ["creating output directory " ++ directory, cause.message]
  | writing path cause => ["writing generated file " ++ path, cause.message]

def message (e : GenerationError) : String := String.intercalate ": " e.chain

end GenerationError

def generateBundle (access : Access m) (file : String) (options : Options)
    (config : Source.Config) : m (Except GenerationError Source.Bundle) := do
  match ← compileFile access file options with
  | .error e => return .error (.compiling file e)
  | .ok compilation =>
    if compilation.isSuccess then
      return (Source.generate config compilation.model.fullView).mapError .generating
    else return .error (.definitions file compilation.diagnostics)

def writeFiles (access : Access m) (directory : String) :
    List (String × String) → m (Except GenerationError Unit)
  | [] => return .ok ()
  | (name, text) :: files => do
    let path := Path.join directory name
    match ← access.write path text with
    | .error e => return .error (.writing path e)
    | .ok () => writeFiles access directory files

/-- Write a bundle into a directory, which is created if need be. -/
def writeBundle (access : Access m) (directory : String) (bundle : Source.Bundle) :
    m (Except GenerationError Unit) := do
  match ← access.createDirectory directory with
  | .error e => return .error (.creating directory e)
  | .ok () => writeFiles access directory bundle.files.entries

/-- Generate the source files of a definitions file, and give their number. -/
def generateFromFile (access : Access m) (file directory : String) (options : Options)
    (config : Source.Config) : m (Except GenerationError Nat) := do
  match ← generateBundle access file options config with
  | .error e => return .error e
  | .ok bundle =>
    match ← writeBundle access directory bundle with
    | .error e => return .error e
    | .ok () => return .ok bundle.files.size

end Quantity
