import Quantity.Source.Lines

/-!
# Configuration of generated source
-/

namespace Quantity.Source

/-- What generated source contains. -/
structure Config where
  /-- Documentation comments on types and constants. -/
  docs : Bool := true
  /-- Derived implementations that read and write the types. -/
  serde : Bool := true
  /-- The name of the generated module. -/
  moduleName : String := "units"
  deriving DecidableEq, Repr

namespace Config

/-- A list of derived traits, with those that read and write if they are wanted. -/
def deriveLine (c : Config) (traits : String) : String :=
  "#[derive(" ++ traits ++ (if c.serde then ", Serialize, Deserialize" else "") ++ ")]"

/-- The import of the traits that read and write. -/
def serdeImport (c : Config) : Lines :=
  onlyIf c.serde ["use serde::\x7bDeserialize, Serialize\x7d;"]

/-- What stands before the type of a unit or scale. -/
def wrapperDerives (c : Config) : Lines :=
  [c.deriveLine "Debug, Clone, Copy, PartialEq, PartialOrd, Default"]
    ++ onlyIf c.serde ["#[serde(transparent)]"]

/-- The first lines of a file. -/
def fileHeader (c : Config) (title : String) : Lines :=
  ["//! " ++ title, ""] ++ c.serdeImport ++ ["#[allow(unused_imports)]", "use super::*;", ""]

end Config

end Quantity.Source
