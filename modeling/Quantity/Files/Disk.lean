import Quantity.Files.Path
import Quantity.Text.Dictionary

/-!
# Disks

A disk holds files, with the time of their last change, in directories. Reading and writing
fail with the errors of the system.
-/

namespace Quantity.Files

open Quantity.Text (Dictionary)

/-- Why a file or directory cannot be used. -/
inductive SystemError where
  | notFound
  | alreadyExists
  | notDirectory
  | isDirectory
  /-- A name or a path has too many bytes. -/
  | nameTooLong
  /-- A path has a null character in it. -/
  | nullInName
  /-- Any other error, as the system words it. -/
  | other (text : String)
  deriving DecidableEq, Repr

def SystemError.message : SystemError → String
  | notFound => "No such file or directory (os error 2)"
  | alreadyExists => "File exists (os error 17)"
  | notDirectory => "Not a directory (os error 20)"
  | isDirectory => "Is a directory (os error 21)"
  | nameTooLong => "File name too long (os error 36)"
  | nullInName => "file name contained an unexpected NUL byte"
  | other text => text

/-- A file. -/
structure File where
  text : String
  /-- When the file was changed last. -/
  modified : Nat
  deriving DecidableEq, Repr

/-- A place: the directories on the way to it from the working directory, and its name. The
places above the working directory begin with `..`, and those below the root with `/`. -/
abbrev Place := List String

namespace Place

def path (place : Place) : String := String.intercalate "/" place

def start (path : String) : Place := if Path.isRooted path then ["/"] else []

/-- Whether the place is the working directory, the root or above them. -/
def isTop (place : Place) : Bool := place.all fun c => c = ".." || c = "/"

def above (place : Place) : Place :=
  if !place.isTop then place.dropLast else if place = ["/"] then place else place ++ [".."]

def step (place : Place) (segment : String) : Place :=
  if Path.isVoid segment then place
  else if segment = ".." then place.above
  else place ++ [segment]

end Place

/-- Files and directories by their plain paths. -/
structure Disk where
  files : Dictionary File := {}
  /-- The directories other than the top ones. -/
  directories : List String := []
  /-- The time of changes made from now on. -/
  now : Nat := 0
  deriving DecidableEq, Repr

/-- What is at a place. -/
inductive Entry where
  | file (file : File)
  | directory
  deriving DecidableEq, Repr

/-- The most bytes that the name of a file may have. -/
def maxNameBytes : Nat := 255

def maxPathBytes : Nat := 4095

namespace Disk

def entry? (d : Disk) (place : Place) : Option Entry :=
  if place.isTop || d.directories.contains place.path then some .directory
  else (d.files.get? place.path).map .file

/-- Follow the segments of a path. All but the last must lead to directories. -/
def follow (d : Disk) (place : Place) : List String → Except SystemError Place
  | [] => .ok place
  | segment :: more =>
    if maxNameBytes < segment.utf8ByteSize then .error .nameTooLong
    else if more.isEmpty then .ok (place.step segment)
    else match d.entry? (place.step segment) with
      | some .directory => d.follow (place.step segment) more
      | some (.file _) => .error .notDirectory
      | none => .error .notFound

/-- The place that some segments of a path lead to. -/
def placeOf (d : Disk) (path : String) (segments : List String) : Except SystemError Place :=
  if path.toList.contains '\x00' then .error .nullInName
  else if maxPathBytes < path.utf8ByteSize then .error .nameTooLong
  else if path = "" then .error .notFound
  else d.follow (.start path) segments

def locate (d : Disk) (path : String) : Except SystemError Place :=
  d.placeOf path (Path.segments path)

def find (d : Disk) (path : String) : Except SystemError Entry := do
  match d.entry? (← d.locate path) with
  | some entry => return entry
  | none => throw .notFound

def isDirectory (d : Disk) (path : String) : Bool := (d.find path).toOption = some .directory

def read (d : Disk) (path : String) : Except SystemError String := do
  match ← d.find path with
  | .file file => return file.text
  | .directory => throw .isDirectory

/-- When a file was changed last; none if there is no such file. Directories change all the
time. -/
def modified? (d : Disk) (path : String) : Except SystemError (Option Nat) :=
  match d.find path with
  | .ok (.file file) => .ok (some file.modified)
  | .ok .directory => .ok (some d.now)
  | .error .notFound => .ok none
  | .error e => .error e

def write (d : Disk) (path text : String) : Except SystemError Disk := do
  let place ← d.locate path
  if d.entry? place = some .directory then throw .isDirectory
  return { d with files := d.files.insert place.path ⟨text, d.now⟩ }

/-! ### Directories -/

/-- Make a directory in one that exists. Slashes at the end of its path do not count. -/
def makeDirectory (d : Disk) (path : String) : Except SystemError Disk := do
  let place ← d.placeOf path ((Path.segments path).reverse.dropWhile (· = "")).reverse
  if (d.entry? place).isSome then throw .alreadyExists
  return { d with directories := d.directories ++ [place.path] }

def ensureDirectory (d : Disk) (path : String) : Except SystemError Disk :=
  match d.makeDirectory path with
  | .ok d => .ok d
  | .error e => if d.isDirectory path then .ok d else .error e

def change (d : Disk) (f : Disk → Except SystemError Disk) : Except SystemError Unit × Disk :=
  match f d with
  | .ok d => (.ok (), d)
  | .error e => (.error e, d)

/-- Make a directory after all directories above it that are missing; `fuel` bounds their
number. -/
def ensureWay : (fuel : Nat) → Disk → (path : String) → Except SystemError Unit × Disk
  | 0, d, _ => (.ok (), d)
  | fuel + 1, d, path =>
    if path = "" then (.ok (), d)
    else match d.change (·.ensureDirectory path) with
      | (.error .notFound, d) =>
        match ensureWay fuel d (Path.parent path) with
        | (.ok (), d) => d.change (·.ensureDirectory path)
        | failed => failed
      | result => result

/-- Make a directory and all directories above it that are missing. Some of them may be there
even if that fails halfway. -/
def createDirectory (d : Disk) (path : String) : Except SystemError Unit × Disk :=
  ensureWay ((Path.segments path).length + 1) d path

/-- The files of a directory with their names, in order; none if there is no such directory. -/
def filesIn (d : Disk) (directory : String) : List (String × File) :=
  match d.locate directory with
  | .error _ => []
  | .ok place =>
    d.files.entries.filterMap fun (path, file) => do
      let name ← (Path.segments path).getLast?
      if path = Place.path (place ++ [name]) then some (name, file) else none

/-! ### Setting up a disk -/

/-- The disk with a file in its place, changed at a given time. -/
def place (d : Disk) (path text : String) (modified : Nat) : Disk :=
  let d := (d.createDirectory (Path.parent path)).2
  match { d with now := modified }.write path text with
  | .ok changed => { changed with now := d.now }
  | .error _ => d

/-- The disk with another time of change of a file. -/
def touch (d : Disk) (path : String) (modified : Nat) : Disk :=
  match d.read path with
  | .ok text => d.place path text modified
  | .error _ => d

def remove (d : Disk) (path : String) : Disk :=
  match d.locate path with
  | .ok place => { d with files := d.files.erase place.path }
  | .error _ => d

end Disk

end Quantity.Files
