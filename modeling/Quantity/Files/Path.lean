/-!
# Paths

A path is a text of segments with slashes between them. As a name, a path is made of those
segments that are neither empty nor single dots; as a way to a place, all segments count.
-/

namespace Quantity.Files.Path

def segments (path : String) : List String := (path.toList.splitOn '/').map String.ofList

/-- Whether a segment names nothing: an empty one, or a dot for the place itself. -/
def isVoid (segment : String) : Bool := segment = "" || segment = "."

def components (path : String) : List String := (segments path).filter (!isVoid ·)

/-- Whether a path starts at the root, and not at the working directory. -/
def isRooted (path : String) : Bool := path.startsWith "/"

/-- A file in a directory, unless its path starts at the root. -/
def join (directory file : String) : String :=
  if directory = "" || isRooted file then file
  else if directory.endsWith "/" then directory ++ file
  else directory ++ "/" ++ file

/-- Segments without those at the end that name nothing. -/
def trimEnd (segments : List String) : List String :=
  (segments.reverse.dropWhile isVoid).reverse

def trimmed (path : String) : String := String.intercalate "/" (trimEnd (segments path))

def parent (path : String) : String :=
  String.intercalate "/" (trimEnd (trimEnd (segments path)).dropLast)

def fileName? (path : String) : Option String :=
  (components path).getLast?.filter (· ≠ "..")

/-- A name up to its last dot, and what follows it. A dot at the beginning does not count. -/
def splitExtension (name : String) : String × Option String :=
  let cs := name.toList.reverse
  let before := ((cs.dropWhile (· ≠ '.')).drop 1).reverse
  if before.isEmpty then (name, none)
  else (String.ofList before, some (String.ofList (cs.takeWhile (· ≠ '.')).reverse))

def fileStem? (path : String) : Option String :=
  (fileName? path).map fun name => (splitExtension name).1

def extension? (path : String) : Option String :=
  (fileName? path).bind fun name => (splitExtension name).2

/-- The path with another extension behind its name. A path without a name stays as it is. -/
def addExtension (path extension : String) : String :=
  if (fileName? path).isSome then trimmed path ++ "." ++ extension else path

end Quantity.Files.Path
