import Quantity.CommandLine.Toml.Scalar
import Quantity.CommandLine.Toml.Table
import Quantity.Text.Lines

/-!
# TOML

A file in this format has a setting to a line, `key = value`, and headers in brackets that name
the table of the lines below. A value is a text in quotes, a number, `true` or `false`, a list in
brackets or a table in braces. What follows a `#` is a comment.
-/

namespace Quantity.CommandLine.Toml

/-! ### Between settings -/

/-- Skip blanks, line breaks and comments; `comment` tells whether a comment is going on. -/
def skipFiller (comment : Bool) : List Char → List Char
  | [] => []
  | c :: cs =>
    if c = '#' || (comment && isPlain c) then skipFiller true cs
    else if isGap c || c = '\n' || (c = '\r' && cs.head? = some '\n') then skipFiller false cs
    else c :: cs

/-- What follows a line, of which nothing but a comment is left. -/
def endLine? (cs : List Char) : Option (List Char) :=
  let cs := match skipGap cs with
    | '#' :: cs => cs.dropWhile isPlain
    | cs => cs
  if cs.isEmpty then some [] else lineBreak? cs

/-! ### Values -/

/-- A way to read something at the front of a text. -/
abbrev Reader (α : Type) := List Char → Option (α × List Char)

/-- The items of a list after its bracket; `fuel` bounds their number. A comma may follow the
last one. -/
def readItems? (value : Reader SettingValue) : (fuel : Nat) → Reader (List SettingValue)
  | 0, _ => none
  | fuel + 1, cs =>
    match skipFiller false cs with
    | ']' :: cs => some ([], cs)
    | cs => do
      let (v, cs) ← value cs
      match skipFiller false cs with
      | ']' :: cs => some ([v], cs)
      | ',' :: cs => (readItems? value fuel cs).map fun (vs, cs) => (v :: vs, cs)
      | _ => none

def readSetting? (value : Reader SettingValue) (cs : List Char) :
    Option ((List String × SettingValue) × List Char) := do
  let (keys, cs) ← readKeys? (cs.length + 1) cs
  match cs with
  | '=' :: cs => (value (skipGap cs)).map fun (v, cs) => ((keys, v), cs)
  | _ => none

/-- The settings of a table in braces, of which `s` have been read; `fuel` bounds their number.
They stand on one line. -/
def readFields? (value : Reader SettingValue) : (fuel : Nat) → (s : State) → Reader State
  | 0, _, _ => none
  | fuel + 1, s, cs => do
    let ((keys, v), cs) ← readSetting? value cs
    let s ← s.set? keys v
    match skipGap cs with
    | '\x7d' :: cs => some (s, cs)
    | ',' :: cs => readFields? value fuel s cs
    | _ => none

def readTable? (value : Reader SettingValue) (fuel : Nat) (cs : List Char) :
    Option (State × List Char) :=
  match skipGap cs with
  | '\x7d' :: cs => some ({}, cs)
  | cs => readFields? value fuel {} cs

/-- A value; `fuel` bounds the number of lists and tables inside each other. -/
def readValue? : (fuel : Nat) → Reader SettingValue
  | 0, _ => none
  | fuel + 1, cs =>
    match cs with
    | '[' :: cs => (readItems? (readValue? fuel) fuel cs).map fun (vs, cs) => (.list vs, cs)
    | '\x7b' :: cs => (readTable? (readValue? fuel) fuel cs).map fun (s, cs) => (s.tree, cs)
    | '"' :: _ | '\'' :: _ => (readQuoted? cs).map fun (text, cs) => (.text text, cs)
    | _ => readBare? cs

/-! ### Files -/

/-- The keys of a header up to its closing brackets, and what follows its line. -/
def readHeader? (closing : List Char) (cs : List Char) : Option (List String × List Char) := do
  let (keys, cs) ← readKeys? (cs.length + 1) cs
  let cs ← endLine? (← Text.stripStart? closing cs)
  some (keys, cs)

/-- A header or a setting, and what follows its line. -/
def readLine? (s : State) (cs : List Char) : Option (State × List Char) := do
  match cs with
  | '[' :: '[' :: cs =>
    let (keys, cs) ← readHeader? [']', ']'] cs
    some (← s.openNext? keys, cs)
  | '[' :: cs =>
    let (keys, cs) ← readHeader? [']'] cs
    some (← s.open? keys, cs)
  | cs =>
    let ((keys, v), cs) ← readSetting? (readValue? (cs.length + 1)) cs
    some (← s.set? keys v, ← endLine? cs)

/-- Read to the end of a file; `fuel` bounds the number of lines. -/
def readFrom? : (fuel : Nat) → State → List Char → Option State
  | 0, _, _ => none
  | fuel + 1, s, cs =>
    match skipFiller false cs with
    | [] => some s
    | cs => do
      let (s, cs) ← readLine? s cs
      readFrom? fuel s cs

/-- The settings of a file. The key of a table at the top may be a path itself. -/
def read? (text : String) : Option (List Setting) := do
  let cs := (Text.dropMark text).toList
  let s ← readFrom? (cs.length + 1) {} cs
  some (s.tree.fields.map fun (key, value) => ⟨Step.path key, value⟩)

end Quantity.CommandLine.Toml
