import Quantity.Source.Dimension
import Quantity.Source.Scale
import Quantity.Text.Dictionary
import Quantity.Text.Lines

/-!
# Source bundles

The source of a view is a bundle of files: one for each unit and scale that has a meaning, one
for the type of dimensions, one for free functions if there are any, and the root file, which
lists the others and holds a catalog of all entries. No two entries may share a file. A bundle
can be merged into one text.
-/

namespace Quantity.Source

open Quantity.Text (Dictionary quoted stripStart? stripEnd?)

/-- Why a view cannot be generated. -/
inductive GenerateError where
  | unit (name : String) (cause : UnitFault)
  | scale (name : String) (cause : ScaleFault)
  /-- A free function cannot be generated. -/
  | operation (operation : OperationView) (cause : OperationError)
  /-- Two entries belong in the same file. -/
  | sameFile (file : String)
  deriving DecidableEq, Repr

namespace GenerateError

/-- The message, and those of its causes. -/
def chain : GenerateError → List String
  | unit name cause => ("Failed to generate unit '" ++ name ++ "'") :: cause.chain
  | scale name cause => ["Failed to generate scale '" ++ name ++ "'", cause.message]
  | operation o cause => ("Failed to generate operation " ++ o.text) :: cause.chain
  | sameFile file => ["Two generated modules map to '" ++ file ++ "'"]

/-- All messages in one line. -/
def message (e : GenerateError) : String := String.intercalate ": " e.chain

end GenerateError

/-- Texts of files by name. -/
abbrev Files := Dictionary String

/-- The files of a generated module. -/
structure Bundle where
  module : String
  files : Files
  deriving DecidableEq, Repr

/-! ### The root file -/

/-- The number of a catalog entry, in double precision. -/
def catalogNumber (n : Numeral) : String := (Numeral.double n.toFloat).literal

/-- The entry of a unit in the root file. -/
def unitCatalogLine (s : UnitSource) : String :=
  let type := identifier s.unit.name
  "    UnitEntry \x7b name: " ++ type ++ "::NAME, symbols: " ++ type ++ "::SYMBOLS, family: "
    ++ type ++ "::FAMILY, dimension: " ++ type ++ "::DIMENSION, factor: "
    ++ catalogNumber s.unit.factor.value ++ " \x7d,"

/-- The entry of a scale in the root file. -/
def scaleCatalogLine (s : ScaleSource) : String :=
  let type := identifier s.scale.name
  "    ScaleEntry \x7b name: " ++ type ++ "::NAME, unit: " ++ quoted s.unit.name
    ++ ", ref_point: " ++ type ++ "::REF_POINT, family: " ++ type ++ "::FAMILY, offset: "
    ++ catalogNumber s.scale.offset.value ++ " \x7d,"

/-- The types of such entries. -/
def catalogTypes : Lines :=
  ["/// Catalog entry of a generated unit", "#[derive(Debug, Clone, Copy, PartialEq)]"]
    ++ block "pub struct UnitEntry"
      ["pub name: &'static str,", "pub symbols: &'static [&'static str],", "pub family: u32,",
        "pub dimension: Dimension,", "pub factor: f64,"]
    ++ apart ["/// Catalog entry of a generated scale", "#[derive(Debug, Clone, Copy, PartialEq)]"]
    ++ block "pub struct ScaleEntry"
      ["pub name: &'static str,", "pub unit: &'static str,", "pub ref_point: &'static str,",
        "pub family: u32,", "pub offset: f64,"]

/-- The functions that look for entries. -/
def catalogLookups : Lines :=
  apart (block "pub fn find_unit(name: &str) -> Option<&'static UnitEntry>"
      ["UNITS.iter().find(|u| u.name == name)"])
    ++ apart (block "pub fn find_unit_by_symbol(symbol: &str) -> Option<&'static UnitEntry>"
      ["UNITS.iter().find(|u| u.symbols.contains(&symbol))"])
    ++ apart (block
      "pub fn units_in_family(family: u32) -> impl Iterator<Item = &'static UnitEntry>"
      ["UNITS.iter().filter(move |u| u.family == family)"])
    ++ apart (block
      "pub fn scales_in_family(family: u32) -> impl Iterator<Item = &'static ScaleEntry>"
      ["SCALES.iter().filter(move |s| s.family == family)"])

/-- The line that makes a file part of the module. -/
def moduleLine (name : String) : String := "pub mod " ++ identifier (moduleName name) ++ ";"

/-- The line that exports the type of an entry. -/
def exportLine (name : String) : String :=
  "pub use " ++ identifier (moduleName name) ++ "::" ++ identifier name ++ ";"

/-- The lines of the root file. -/
def rootFile (c : Config) (units : List UnitSource) (scales : List ScaleSource)
    (free : Bool) : Lines :=
  let names := units.map (·.unit.name) ++ scales.map (·.scale.name)
  ["//! Generated units of measurement: " ++ c.moduleName, "//!", "//! Do not edit by hand.", "",
      "#![allow(non_camel_case_types)]", "#![allow(clippy::excessive_precision)]", ""]
    ++ onlyIf (units.any (·.unit.kind = .decimal)) ["pub use rust_decimal::Decimal;", ""]
    ++ ["pub mod dimension;"] ++ names.map moduleLine
    ++ onlyIf free ["pub mod operations;"]
    ++ ["", "pub use dimension::Dimension;"] ++ names.map exportLine
    ++ onlyIf free ["pub use operations::*;"]
    ++ apart catalogTypes
    ++ apart (["pub const UNITS: &[UnitEntry] = &["] ++ units.map unitCatalogLine ++ ["];"])
    ++ apart (["pub const SCALES: &[ScaleEntry] = &["] ++ scales.map scaleCatalogLine ++ ["];"])
    ++ catalogLookups

/-! ### Generating -/

/-- The name of the root file. -/
def rootName : String := "mod.rs"

/-- The name of the file of a module. -/
def fileName (module : String) : String := module ++ ".rs"

/-- Add the file of a module, unless there is one already. -/
def addFile (files : Files) (module : String) (content : Lines) : Except GenerateError Files :=
  let file := fileName module
  if files.contains file then .error (.sameFile file)
  else .ok (files.insert file (text content))

/-- Add the files of units in turn. -/
def addUnits (c : Config) (v : View) (files : Files) :
    List UnitView → Except GenerateError (Files × List UnitSource)
  | [] => .ok (files, [])
  | u :: us => do
    let source ← (unitSource v u).mapError (.unit u.name)
    let files ← addFile files (moduleName u.name) (source.lines c)
    let (files, sources) ← addUnits c v files us
    return (files, source :: sources)

/-- Add the files of scales in turn. -/
def addScales (c : Config) (v : View) (files : Files) :
    List ScaleView → Except GenerateError (Files × List ScaleSource)
  | [] => .ok (files, [])
  | s :: ss => do
    let source ← (scaleSource v s).mapError (.scale s.name)
    let files ← addFile files (moduleName s.name) (source.lines c)
    let (files, sources) ← addScales c v files ss
    return (files, source :: sources)

/-- Add the file of the free functions, if there are any. -/
def addOperations (c : Config) (v : View) (files : Files) : Except GenerateError Files := do
  let functions ← (freeOperations v).mapM fun o => (freeFunction v o).mapError (.operation o)
  if functions.isEmpty then return files
  else addFile files "operations" (operationsFile c functions)

/-- Generate the files for a view. -/
def generate (c : Config) (v : View) : Except GenerateError Bundle := do
  let files ← addFile {} "dimension" (dimensionFile c)
  let (files, units) ← addUnits c v files (v.units.filter (·.valid))
  let (files, scales) ← addScales c v files (v.scales.filter (·.valid))
  let files ← addOperations c v files
  let root := rootFile c units scales (!(freeOperations v).isEmpty)
  return ⟨c.moduleName, files.insert rootName (text root)⟩

/-! ### Merging -/

namespace Bundle

/-- A line further in, unless it is empty. -/
def indentBy (indent : String) (line : String) : String :=
  if line.isEmpty then line else indent ++ line

/-- The name without the marks in front. -/
def dropRawMarks : List Char → List Char
  | 'r' :: '#' :: cs => dropRawMarks cs
  | cs => cs

/-- The module that a line of the root file stands for, and the text of its file. -/
def inlined? (b : Bundle) (line : String) : Option (String × String) := do
  let rest ← stripStart? "pub mod ".toList line.toList
  let name ← stripEnd? [';'] rest
  let content ← b.files.get? (fileName (String.ofList (dropRawMarks name)))
  return (String.ofList name, content)

/-- What a line of the root file becomes: a module in place of the line that refers to it,
otherwise the line itself. Empty lines are left out. -/
def mergedLine (b : Bundle) (line : String) : Lines :=
  match b.inlined? line with
  | some (name, content) =>
    ("    pub mod " ++ name ++ " \x7b") :: (Text.lines content).map (indentBy "        ")
      ++ ["    \x7d"]
  | none => (Text.lines line).map (indentBy "    ")

/-- All files in one text. -/
def merged (b : Bundle) : String :=
  match b.files.get? rootName with
  | some root =>
    text (("pub mod " ++ identifier b.module ++ " \x7b")
      :: (Text.lines root).flatMap b.mergedLine ++ ["\x7d"])
  | none => ""

end Bundle

end Quantity.Source
