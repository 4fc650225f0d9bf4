import Quantity.Catalog.Json
import Quantity.Files.Disk

/-!
# Stores

Built modules are kept for the next start of a program. How, is up to the host: it brings a
store. The usual one is a directory with two files for each module: its manifest and its
source. The manifest is written last, so its time of change marks a complete module.
-/

namespace Quantity

open Quantity.Files

/-- Why a store or a definitions file cannot be used. -/
inductive StoreError where
  | system (path : String) (cause : SystemError)
  | definitionsMissing (path : String)
  /-- The manifest is no artifact. -/
  | manifest
  deriving DecidableEq, Repr

/-- A way to keep modules on a disk. -/
structure Store where
  /-- Whether the stored module is at least as recent as the definitions. -/
  isFresh : Disk → (definitions module : String) → Except StoreError Bool
  read : Disk → (module : String) → Except StoreError Artifact
  /-- Store a module. The disk may have changed even if that fails halfway. -/
  write : Disk → (module : String) → Artifact → Except StoreError Unit × Disk

/-- A directory of modules. -/
structure Directory where
  root : String
  deriving DecidableEq, Repr

namespace Directory

/-- The file of the descriptors of a module. -/
def manifestPath (s : Directory) (module : String) : String :=
  Path.join s.root (module ++ ".json")

/-- The file of the generated source of a module. -/
def sourcePath (s : Directory) (module : String) : String := Path.join s.root (module ++ ".rs")

/-- When a file was last changed, if it is there. -/
def modified? (d : Disk) (path : String) : Except StoreError (Option Nat) :=
  (d.modified? path).mapError (.system path)

/-- Whether the manifest is at least as recent as the definitions. -/
def isFresh (s : Directory) (d : Disk) (definitions module : String) : Except StoreError Bool := do
  match ← modified? d (s.manifestPath module) with
  | none => return false
  | some stored =>
    match ← modified? d definitions with
    | none => throw (.definitionsMissing definitions)
    | some written => return written ≤ stored

/-- The module of a manifest. -/
def read (s : Directory) (d : Disk) (module : String) : Except StoreError Artifact := do
  let path := s.manifestPath module
  let text ← (d.read path).mapError (.system path)
  match Artifact.read? text with
  | some a => return a
  | none => throw .manifest

/-- Write the source and then the manifest. -/
def write (s : Directory) (d : Disk) (module : String) (a : Artifact) :
    Except StoreError Unit × Disk :=
  let source := s.sourcePath module
  let manifest := s.manifestPath module
  match d.createDirectory s.root with
  | (.error e, d) => (.error (.system s.root e), d)
  | (.ok (), d) =>
    match d.write source a.source with
    | .error e => (.error (.system source e), d)
    | .ok d =>
      match d.write manifest a.write with
      | .error e => (.error (.system manifest e), d)
      | .ok d => (.ok (), d)

end Directory

/-- The store in a directory. -/
def Store.ofDirectory (d : Directory) : Store := ⟨d.isFresh, d.read, d.write⟩

end Quantity
