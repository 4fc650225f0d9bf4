import Quantity.CommandLine.Run

/-!
# The program

The commands, run on the files and the environment of the system.
-/

namespace Quantity.CommandLine

open Quantity.Files

def numbered? : IO.Error → Option (UInt32 × String)
  | .noFileOrDirectory _ code details => some (code, details)
  | .alreadyExists _ code details => some (code, details)
  | .inappropriateType _ code details => some (code, details)
  | .invalidArgument _ code details => some (code, details)
  | .permissionDenied _ code details => some (code, details)
  | .resourceExhausted _ code details => some (code, details)
  | .otherError code details => some (code, details)
  | _ => none

/-- The error of a number, which may have come with a minus sign. -/
def errorOfNumber (code : UInt32) (details : String) : SystemError :=
  match (if code < 0x80000000 then code else 0 - code).toNat with
  | 2 => .notFound
  | 17 => .alreadyExists
  | 20 => .notDirectory
  | 21 => .isDirectory
  | 36 => .nameTooLong
  | n => .other (details.capitalize ++ " (os error " ++ toString n ++ ")")

def systemError (e : IO.Error) : SystemError :=
  match numbered? e with
  | some (code, details) => errorOfNumber code details
  | none => .other e.toString

/-- Do something with the system, and give its error if it fails. -/
def attempt {α : Type} (action : IO α) : IO (Except SystemError α) := do
  try return .ok (← action)
  catch e => return .error (systemError e)

/-- Make a directory, unless there is one. A directory is what cannot be read as a file. -/
def ensureDirectory (path : String) : IO (Except SystemError Unit) := do
  match ← attempt (IO.FS.createDir path), ← attempt (IO.FS.readFile path) with
  | .ok (), _ | _, .error .isDirectory => return .ok ()
  | .error e, _ => return .error e

/-- Make a directory after all directories above it that are missing; `fuel` bounds their
number. -/
def createDirectory : (fuel : Nat) → (path : String) → IO (Except SystemError Unit)
  | 0, _ => return .ok ()
  | fuel + 1, path => do
    if path = "" then return .ok ()
    match ← ensureDirectory path with
    | .error .notFound =>
      match ← createDirectory fuel (Path.parent path) with
      | .ok () => ensureDirectory path
      | .error e => return .error e
    | result => return result

def systemAccess : Access IO :=
  { read := fun path => attempt (IO.FS.readFile path)
    createDirectory := fun path => createDirectory ((Path.segments path).length + 1) path
    write := fun path text => attempt (IO.FS.writeFile path text) }

def settingVariables : List String :=
  ["METRUM_LOGGING__LEVEL", "METRUM_LOGGING__JSON", "METRUM_COMPILE__NUMERIC_KIND",
    "METRUM_COMPILE__DEFAULT_FORMAT", "METRUM_COMPILE__REDECLARATION", "METRUM_GENERATE__DOCS",
    "METRUM_GENERATE__SERDE", "METRUM_GENERATE__MODULE_NAME"]

/-- A variable of the environment and its value, from the text of both. -/
def variableOf? (entry : String) : Option (String × String) :=
  match entry.splitOn "=" with
  | name :: value :: more => some (name, String.intercalate "=" (value :: more))
  | _ => none

/-- The variables of the process, or those that hold settings if only they can be asked for. -/
def environment : IO (List (String × String)) := do
  try
    let text ← IO.FS.readFile "/proc/self/environ"
    return (text.splitOn "\x00").filterMap variableOf?
  catch _ =>
    settingVariables.filterMapM fun name => do
      return (← IO.getEnv name).map fun value => (name, value)

end Quantity.CommandLine

def main (args : List String) : IO UInt32 := do
  let settings ← Quantity.CommandLine.environment
  let reply ← Quantity.CommandLine.run Quantity.CommandLine.systemAccess settings args
  (← IO.getStdout).putStr reply.out
  (← IO.getStderr).putStr reply.err
  return reply.status.toUInt32
