import Quantity.CommandLine.Help
import Quantity.CommandLine.Settings
import Quantity.Generation
import Quantity.View.Json

/-!
# Running commands

A call of the program gives a status and what is to be printed. Zero means success, one that
there were errors, two that the arguments make no sense.
-/

namespace Quantity.CommandLine

open Quantity.Files
open Quantity.Text (Json)

variable {m : Type → Type} [Monad m]

/-- The answer to a call. -/
structure Reply where
  status : Nat
  /-- What goes to the standard output. -/
  out : String := ""
  /-- What goes to the standard error. -/
  err : String := ""
  deriving DecidableEq, Repr

/-! ### Errors -/

/-- A text whose lines after the first are set in. -/
def hanging (indent text : String) : String :=
  String.intercalate ("\n" ++ indent) (text.splitOn "\n")

def columnNumber (n : Nat) : String :=
  let digits := toString n
  String.ofList (List.replicate (5 - digits.length) ' ') ++ digits

/-- The causes of an error, numbered if there are several. -/
def causesText : List String → String
  | [] => ""
  | [cause] => "\n\nCaused by:\n    " ++ hanging "    " cause
  | causes =>
    "\n\nCaused by:" ++ String.join (causes.zipIdx.map fun (cause, i) =>
      "\n" ++ columnNumber i ++ ": " ++ hanging "       " cause)

/-- The report of an error and its causes, the outermost first. -/
def errorText : List String → String
  | [] => ""
  | error :: causes => "Error: " ++ error ++ causesText causes ++ "\n"

def failure (chain : List String) : Reply := { status := 1, err := errorText chain }

/-! ### Refusals -/

def Refusal.reply (r : Refusal) : Reply :=
  match r with
  | help _ | version => { status := 0, out := r.text }
  | _ => { status := 2, err := r.text }

/-! ### Settings -/

/-- The settings file that is used if none is named. -/
def defaultSettingsFile : String := "Metrum.toml"

def firstFile (access : Access m) : List String → m (Option (String × String))
  | [] => return none
  | file :: files => do
    match ← access.read file with
    | .ok text => return some (file, text)
    | .error _ => firstFile access files

/-- The settings of the file of a name, or of the name with an extension added; none if there
is no such file. -/
def readSettingsFile (access : Access m) (file : String) :
    m (Except SettingsError (Option (List Setting))) := do
  let extended := SettingsFormat.byExtension.map fun e => Path.addExtension file e.1
  match ← firstFile access (file :: extended) with
  | none => return .ok none
  | some (found, text) =>
    match (Path.extension? found).bind SettingsFormat.ofExtension? with
    | none => return .error (.unknownFormat found)
    | some format =>
      match format.read? text with
      | some settings => return .ok (some settings)
      | none => return .error (.malformed found)

/-- The settings of a call. A file that is named must exist. -/
def loadSettings (access : Access m) (env : List (String × String)) (config : Option String) :
    m (Except SettingsError Settings) := do
  match ← readSettingsFile access (config.getD defaultSettingsFile), config with
  | .error e, _ => return .error e
  | .ok none, some file => return .error (.missing file)
  | .ok settings, _ =>
    return Settings.ofTree (treeOf (settings.getD [] ++ settingsOfEnvironment env))

/-! ### Commands -/

def diagnosticLines (ds : Diagnostics) : String :=
  if ds.items.isEmpty then "" else ds.render ++ "\n"

def statusOf (c : Compilation) : Nat := if c.isSuccess then 0 else 1

/-- Compile definitions and answer with what came of it. -/
def answerCompilation (access : Access m) (file : String) (s : Settings)
    (out : Compilation → String) : m Reply := do
  match ← compileFile access file s.options with
  | .error e => return failure (("Failed to read " ++ file) :: e.chain)
  | .ok c => return { status := statusOf c, out := out c, err := diagnosticLines c.diagnostics }

def summary (file : String) (c : Compilation) : String :=
  file ++ ": " ++ toString c.model.units.length ++ " unit(s), "
    ++ toString c.model.scales.length ++ " scale(s), "
    ++ toString c.model.operations.length ++ " operation(s), "
    ++ toString c.diagnostics.errorCount ++ " error(s)\n"

def dumpText (compact : Bool) (c : Compilation) : String :=
  c.model.fullView.write (if compact then .compact else .indented) ++ "\n"

/-- The settings with what the options of the command change. -/
def generateSettings (s : Settings) (moduleName : Option String) (noDocs : Bool) :
    Source.Config :=
  { s.source with
    moduleName := moduleName.getD s.source.moduleName
    docs := s.source.docs && !noDocs }

def runCommand (access : Access m) (s : Settings) : Command → m Reply
  | .check file => answerCompilation access file s (summary file)
  | .dump file compact => answerCompilation access file s (dumpText compact)
  | .generate file output moduleName noDocs => do
    let config := generateSettings s moduleName noDocs
    match ← generateFromFile access file output s.options config with
    | .error e => return failure e.chain
    | .ok count =>
      return { status := 0, out := "Wrote " ++ toString count ++ " file(s) to " ++ output ++ "\n" }

def run (access : Access m) (env : List (String × String)) (args : List String) : m Reply := do
  match Invocation.read args with
  | .error refusal => return refusal.reply
  | .ok invocation =>
    match ← loadSettings access env invocation.config with
    | .error e => return failure e.chain
    | .ok settings => runCommand access settings invocation.command

end Quantity.CommandLine
