import Quantity.CommandLine.SettingsFormat
import Quantity.Options
import Quantity.Source.Config

/-!
# Settings

Settings come from a file and from variables of the environment, which take precedence. A
variable is named for the setting, with two underscores between section and key. A section is
a table of its settings, or a list of them.
-/

namespace Quantity.CommandLine

open Quantity.Text (inSmallLetters)

/-- The settings of the program. -/
structure Settings where
  options : Options := {}
  source : Source.Config := {}
  deriving DecidableEq, Repr

/-- Why there are no settings. -/
inductive SettingsError where
  | missing (file : String)
  /-- The name does not tell the format of the file. -/
  | unknownFormat (file : String)
  | malformed (file : String)
  /-- A setting has no meaning. -/
  | invalid (path : List String)
  deriving DecidableEq, Repr

def SettingsError.chain : SettingsError → List String
  | missing file => ["Failed to read configuration",
      "configuration file \"" ++ file ++ "\" not found"]
  | unknownFormat file => ["Failed to read configuration",
      "configuration file \"" ++ file ++ "\" is not of a registered file format"]
  | malformed file => ["Failed to read configuration", "invalid settings in " ++ file]
  | invalid path => ["Invalid configuration",
      "invalid value for " ++ String.intercalate "." path]

/-! ### Variables -/

/-- The beginning of the names of variables, in small letters. -/
def variableStart : String := "metrum_"

/-- The setting of a variable, if it is one of the program's. Two underscores in its name stand
for a dot. -/
def settingOfVariable? (name value : String) : Option Setting :=
  (Text.stripStart? variableStart.toList (inSmallLetters name).toList).map fun rest =>
    ⟨Step.path (String.intercalate "." ((String.ofList rest).splitOn "__")), .text value⟩

def settingsOfEnvironment (env : List (String × String)) : List Setting :=
  env.filterMap fun (name, value) => settingOfVariable? name value

/-! ### Values -/

namespace SettingValue

/-- A setting as a truth value; there are several words for each. -/
def toBool? : SettingValue → Option Bool
  | flag b => some b
  | integer n => some (n ≠ 0)
  | real x => some (x != 0)
  | text s =>
    let s := inSmallLetters s
    if ["1", "true", "on", "yes"].contains s then some true
    else if ["0", "false", "off", "no"].contains s then some false
    else none
  | nothing | list _ | table _ => none

def toText? : SettingValue → Option String
  | text s => some s
  | flag b => some (if b then "true" else "false")
  | integer n => some (toString n)
  | real x => some (Numeral.double x).text
  | nothing | list _ | table _ => none

/-- A setting as one of several words, in any case of their letters. The word is the setting
itself, or its only key. -/
def toChoice? {α : Type} (choices : List (String × α)) : SettingValue → Option α
  | text s | table [(s, _)] => (choices.find? fun c => c.1 = inSmallLetters s).map (·.2)
  | _ => none

/-- The section of a name in a tree of settings, which is a table or a list. A section that is
missing is empty. -/
def section? (t : SettingValue) (name : String) : Except SettingsError SettingValue :=
  match t.field? name with
  | none => .ok (table [])
  | some (table fields) => .ok (table fields)
  | some (list items) => .ok (list items)
  | some _ => .error (.invalid [name])

end SettingValue

/-- A section of settings: its name, the keys of its settings in order, and what is given. -/
structure Section where
  name : String
  keys : List String
  value : SettingValue

def Section.find (t : SettingValue) (name : String) (keys : List String) :
    Except SettingsError Section := do
  return ⟨name, keys, ← t.section? name⟩

/-- What is given under a key of a section. The items of a list are taken in the order of the
keys. -/
def Section.given? (s : Section) (key : String) : Option SettingValue :=
  match s.value with
  | .list items => items[s.keys.idxOf key]?
  | value => value.field? key

/-- The setting of a key, or its default if none is given. -/
def Section.get {α : Type} (s : Section) (key : String) (default : α)
    (type : SettingValue → Option α) : Except SettingsError α :=
  match s.given? key with
  | none => .ok default
  | some value =>
    match type value with
    | some a => .ok a
    | none => .error (.invalid [s.name, key])

def kindChoices : List (String × NumericKind) :=
  [NumericKind.double, .float, .decimal].map fun k => (k.keyword, k)

def redeclarationChoices : List (String × Redeclaration) :=
  [Redeclaration.newFamily, .sameUnit, .reject].map fun r => (r.word, r)

def Settings.ofTree (t : SettingValue) : Except SettingsError Settings := do
  let default : Settings := {}
  let logging ← Section.find t "logging" ["level", "json"]
  let compile ← Section.find t "compile" ["numeric_kind", "default_format", "redeclaration"]
  let generate ← Section.find t "generate" ["docs", "serde", "module_name"]
  let _ ← logging.get "level" "" SettingValue.toText?
  let _ ← logging.get "json" false SettingValue.toBool?
  let kind ← compile.get "numeric_kind" default.options.kind (SettingValue.toChoice? kindChoices)
  let format ← compile.get "default_format" default.options.format SettingValue.toText?
  let redeclaration ← compile.get "redeclaration" default.options.redeclaration
    (SettingValue.toChoice? redeclarationChoices)
  let docs ← generate.get "docs" default.source.docs SettingValue.toBool?
  let serde ← generate.get "serde" default.source.serde SettingValue.toBool?
  let moduleName ← generate.get "module_name" default.source.moduleName SettingValue.toText?
  return { options := { kind, format, redeclaration }, source := { docs, serde, moduleName } }

end Quantity.CommandLine
