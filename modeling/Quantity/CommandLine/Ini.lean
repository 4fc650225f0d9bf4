import Quantity.CommandLine.Setting
import Quantity.Text.Blank
import Quantity.Text.Json

/-!
# INI

A file in this format has settings, `key = value` or `key : value`, and section names in
brackets. All values are texts, with or without quotes, and a backslash escapes the character
behind it. A line that begins with `;` or `#` is a comment. Of several sections with the same
name the last one counts, and so does the last one of several settings with the same key.
-/

namespace Quantity.CommandLine.Ini

open Quantity.Text (Json isBlank)

/-! ### Texts -/

/-- The characters that an escape stands for, after its backslash. A line break stands for
nothing. -/
def readEscape? : List Char → Option (List Char × List Char)
  | [] => none
  | '0' :: cs => some (['\x00'], cs)
  | 'a' :: cs => some (['\x07'], cs)
  | 'b' :: cs => some (['\x08'], cs)
  | 't' :: cs => some (['\t'], cs)
  | 'r' :: cs => some (['\r'], cs)
  | 'n' :: cs => some (['\n'], cs)
  | '\n' :: cs => some ([], cs)
  | 'x' :: cs => do
    let (n, cs) ← Json.readHex4? cs
    if n.isValidChar then some ([Char.ofNat n], cs) else none
  | c :: cs => some ([c], cs)

/-- The characters before an end, and the rest with the end; `fuel` bounds their number. The end
of the file is an end too if `toEnd` is set. -/
def readUntil? (isEnd : Char → Bool) (toEnd : Bool) :
    (fuel : Nat) → List Char → Option (List Char × List Char)
  | _, [] => if toEnd then some ([], []) else none
  | 0, _ => none
  | fuel + 1, c :: cs =>
    if isEnd c then some ([], c :: cs)
    else do
      let (text, cs) ← if c = '\\' then readEscape? cs else some ([c], cs)
      let (more, cs) ← readUntil? isEnd toEnd fuel cs
      some (text ++ more, cs)

def trim (cs : List Char) : String :=
  String.ofList (((cs.dropWhile isBlank).reverse.dropWhile isBlank).reverse)

def isLineEnd (c : Char) : Bool := c = '\n' || c = '\r'

def readLine? (cs : List Char) : Option (List Char × List Char) :=
  readUntil? isLineEnd true cs.length cs

/-- A value: a text in quotes, with what follows it on the line, or the whole line. -/
def readValue? (cs : List Char) : Option (List Char × List Char) :=
  match cs.dropWhile fun c => isBlank c && !isLineEnd c with
  | [] => some ([], [])
  | c :: cs =>
    if c = '"' || c = '\'' then do
      let (quoted, cs) ← readUntil? (· = c) false cs.length cs
      let (more, cs) ← readLine? (cs.drop 1)
      some (quoted ++ more, cs)
    else readLine? (c :: cs)

/-! ### Sections -/

abbrev Properties := List (String × String)

/-- What has been read of a file. -/
structure State where
  /-- The settings before the first section. -/
  general : Properties := []
  /-- The sections, the last of which is the current one. -/
  sections : List (String × Properties) := []
  /-- The key whose value comes next. -/
  key : String := ""

/-- Set the value of the key in the current section. -/
def State.set (s : State) (value : String) : State :=
  match s.sections.getLast? with
  | none => { s with general := s.general ++ [(s.key, value)], key := "" }
  | some (name, properties) =>
    { s with
      sections := s.sections.dropLast ++ [(name, properties ++ [(s.key, value)])]
      key := "" }

/-- Skip blanks, and tell whether what follows begins a line. -/
def skipBlanks (begins : Bool) : List Char → Bool × List Char
  | [] => (begins, [])
  | c :: cs => if isBlank c then skipBlanks (c = '\n') cs else (begins, c :: cs)

/-- Read from some place on; `begins` tells whether a line begins there, and `fuel` bounds the
number of parts. -/
def readFrom? : (fuel : Nat) → State → (begins : Bool) → List Char → Option State
  | 0, _, _, _ => none
  | fuel + 1, s, begins, cs =>
    match skipBlanks begins cs with
    | (_, []) => some s
    | (begins, c :: cs) =>
      if c = ';' || c = '#' then
        if begins then readFrom? fuel s true ((cs.dropWhile (· ≠ '\n')).drop 1) else none
      else if c = '[' then do
        let (name, cs) ← readUntil? (· = ']') false cs.length cs
        readFrom? fuel { s with sections := s.sections ++ [(trim name, [])] } false (cs.drop 1)
      else if c = '=' || c = ':' then
        if s.key = "" then none
        else do
          let (value, cs) ← readValue? cs
          readFrom? fuel (s.set (trim value)) false cs
      else do
        let (key, cs) ← readUntil? (fun c => c = '=' || c = ':') false (cs.length + 1) (c :: cs)
        readFrom? fuel { s with key := trim key } false cs

def lastSections (sections : List (String × Properties)) : List (String × Properties) :=
  sections.foldl (fun kept s => kept.filter (fun k => k.1 ≠ s.1) ++ [s]) []

def read? (text : String) : Option (List Setting) := do
  let s ← readFrom? (text.length + 1) {} true text.toList
  let general := s.general.map fun (key, value) => Setting.mk (Step.path key) (.text value)
  let sections := (lastSections s.sections).map fun (name, properties) =>
    Setting.mk (Step.path name) (.table (properties.map fun (key, value) => (key, .text value)))
  return general ++ sections

end Quantity.CommandLine.Ini
