import Quantity.CommandLine.Ini
import Quantity.CommandLine.Toml
import Quantity.Numeral

/-!
# Formats of settings files

The extension of a settings file tells its format. The formats that agree with JSON on objects
of texts, numbers and truth values are read as far as they do.
-/

namespace Quantity.CommandLine

open Quantity.Text (Json)

/-! ### JSON -/

namespace SettingValue

/-- A number: an integer if it is written and can be kept as one. -/
def ofNumber? (j : Json) : Option SettingValue :=
  match j.toInt? with
  | some n => if -Number.twoPow 63 ≤ n && n < Number.twoPow 63 then some (integer n)
    else j.toFloat?.map real
  | none => j.toFloat?.map real

mutual

def ofJson? : Json → Option SettingValue
  | .null => some nothing
  | .bool b => some (flag b)
  | .number t => ofNumber? (.number t)
  | .string s => some (text s)
  | .array js => (ofItems? js).map list
  | .object fs => (ofFields? fs []).map table
  | .unusable => none

def ofItems? : List Json → Option (List SettingValue)
  | [] => some []
  | j :: js => do return (← ofJson? j) :: (← ofItems? js)

/-- The trees of the fields of an object after those that have been read. The last one of
several with the same name counts. -/
def ofFields? : List (String × Json) → List (String × SettingValue) →
    Option (List (String × SettingValue))
  | [], read => some read
  | (name, j) :: fs, read => do ofFields? fs (putField name (← ofJson? j) read)

end

end SettingValue

def settingsOfJson? (text : String) : Option (List Setting) := do
  match ← SettingValue.ofJson? (← Json.read? text) with
  | .table fields => some (fields.map fun (name, value) => ⟨Step.path name, value⟩)
  | _ => none

/-! ### Formats -/

/-- The format of a settings file. -/
inductive SettingsFormat where
  | toml
  | json
  | yaml
  | ini
  | ron
  | json5
  deriving DecidableEq, Repr

namespace SettingsFormat

/-- The formats by extension, in the order in which extensions are tried. -/
def byExtension : List (String × SettingsFormat) :=
  [("toml", toml), ("json", json), ("yaml", yaml), ("yml", yaml), ("ini", ini), ("ron", ron),
    ("json5", json5)]

def ofExtension? (extension : String) : Option SettingsFormat :=
  (byExtension.find? fun e => e.1 = extension).map (·.2)

/-- Whether there is nothing but comments in a text. -/
def isEmptyText (text : String) : Bool :=
  (Text.lines text).all fun line =>
    match line.toList.dropWhile (· = ' ') with
    | [] => true
    | c :: _ => c = '#'

/-- The settings of a file in the format. A mark of the order of bytes in front does not
count. -/
def read? (format : SettingsFormat) (text : String) : Option (List Setting) :=
  let text := Text.dropMark text
  match format with
  | toml => Toml.read? text
  | ini => Ini.read? text
  | yaml => if isEmptyText text then some [] else settingsOfJson? text
  | json | ron | json5 => settingsOfJson? text

end SettingsFormat

end Quantity.CommandLine
