import Quantity.Number.Reading
import Quantity.Text.Quoted

/-!
# JSON

Views and stored modules are written as JSON texts and read back. A number is kept as it was
written, so that reading and writing lose nothing; what it means is decided where a value of
a certain type is asked for.
-/

namespace Quantity.Text

/-- A JSON value. -/
inductive Json where
  | null
  | bool (value : Bool)
  /-- A number as it is written. -/
  | number (text : String)
  | string (value : String)
  | array (items : List Json)
  /-- An object with its fields in order. -/
  | object (fields : List (String × Json))
  /-- A well-formed part without a meaning: a text with half a surrogate pair, or an object with
  such a name. It may stand where nothing is read. -/
  | unusable
  deriving Inhabited

namespace Json

def int (n : Int) : Json := .number (toString n)

def orNull {α : Type} (f : α → Json) : Option α → Json
  | some a => f a
  | none => .null

def strings (ss : List String) : Json := .array (ss.map .string)

/-! ### Writing -/

/-- A hexadecimal digit string of at least four places. -/
def hex4 (n : Nat) : List Char :=
  let ds := hexDigits n
  List.replicate (4 - ds.length) '0' ++ ds

/-- A character as it stands in a JSON text: quotes, backslashes and control characters are
escaped, everything else stands for itself. -/
def writeChar (c : Char) : List Char :=
  match c with
  | '"' => ['\\', '"']
  | '\\' => ['\\', '\\']
  | '\x08' => ['\\', 'b']
  | '\x0c' => ['\\', 'f']
  | '\n' => ['\\', 'n']
  | '\r' => ['\\', 'r']
  | '\t' => ['\\', 't']
  | c => if c.toNat < 0x20 then ['\\', 'u'] ++ hex4 c.toNat else [c]

def writeString (s : String) : List Char := '"' :: s.toList.flatMap writeChar ++ ['"']

/-- How the parts of a value are set apart. -/
structure Spacing where
  /-- What stands before the items of a container at a depth. -/
  lineBreak : Nat → List Char
  /-- What stands after the colon of a field. -/
  afterColon : List Char

def Spacing.compact : Spacing := ⟨fun _ => [], []⟩

/-- An item to a line, indented by two blanks for each level. -/
def Spacing.indented : Spacing := ⟨fun depth => '\n' :: List.replicate (2 * depth) ' ', [' ']⟩

/-- A container: its items between brackets, each on a line of its own. -/
def writeItems (sp : Spacing) (depth : Nat) (open_ close : Char) : List (List Char) → List Char
  | [] => [open_, close]
  | item :: items =>
    let between := ',' :: sp.lineBreak (depth + 1)
    open_ :: sp.lineBreak (depth + 1) ++ item
      ++ items.flatMap (fun i => between ++ i) ++ sp.lineBreak depth ++ [close]

mutual

/-- The text of a value inside `depth` containers. -/
def writeAt (sp : Spacing) (depth : Nat) : Json → List Char
  | .null => ['n', 'u', 'l', 'l']
  | .bool true => ['t', 'r', 'u', 'e']
  | .bool false => ['f', 'a', 'l', 's', 'e']
  | .number text => text.toList
  | .string s => writeString s
  | .array items => writeItems sp depth '[' ']' (writeAll sp (depth + 1) items)
  | .object fields => writeItems sp depth '\x7b' '\x7d' (writeFields sp (depth + 1) fields)
  | .unusable => ['n', 'u', 'l', 'l']

def writeAll (sp : Spacing) (depth : Nat) : List Json → List (List Char)
  | [] => []
  | j :: js => writeAt sp depth j :: writeAll sp depth js

def writeFields (sp : Spacing) (depth : Nat) : List (String × Json) → List (List Char)
  | [] => []
  | (name, j) :: fields =>
    (writeString name ++ ':' :: sp.afterColon ++ writeAt sp depth j)
      :: writeFields sp depth fields

end

def write (sp : Spacing) (j : Json) : String := String.ofList (writeAt sp 0 j)

/-! ### Reading

Every reader takes the characters from some place on and gives back what it read together
with the rest. The `fuel` of a reader bounds the number of its steps; the number of characters
that are left is enough. -/

/-- Whether the character may stand between the parts of a text. -/
def isSpace (c : Char) : Bool := c = ' ' || c = '\n' || c = '\t' || c = '\r'

def skipSpace (cs : List Char) : List Char := cs.dropWhile isSpace

def expect? (word cs : List Char) : Option (List Char) :=
  if word.isPrefixOf cs then some (cs.drop word.length) else none

def hexValue? (c : Char) : Option Nat :=
  if c.isDigit then some (c.toNat - '0'.toNat)
  else if 'a' ≤ c && c ≤ 'f' then some (c.toNat - 'a'.toNat + 10)
  else if 'A' ≤ c && c ≤ 'F' then some (c.toNat - 'A'.toNat + 10)
  else none

def readHex4? : List Char → Option (Nat × List Char)
  | a :: b :: c :: d :: cs => do
    let a ← hexValue? a
    let b ← hexValue? b
    let c ← hexValue? c
    let d ← hexValue? d
    some (((a * 16 + b) * 16 + c) * 16 + d, cs)
  | _ => none

/-- A code of the lower surrogates, given by an escape. -/
def readLower? (cs : List Char) : Option (Nat × List Char) := do
  let (low, cs) ← readHex4? (← expect? ['\\', 'u'] cs)
  if 0xDC00 ≤ low && low < 0xE000 then some (low, cs) else none

/-- The character of a code given after a backslash and the letter u. A code of the upper
surrogates makes a character with one of the lower surrogates behind it; a surrogate by itself
is none. -/
def readCode? (cs : List Char) : Option (Option Char × List Char) := do
  let (code, cs) ← readHex4? cs
  if 0xD800 ≤ code && code < 0xDC00 then
    match readLower? cs with
    | some (low, cs) =>
      some (some (Char.ofNat (0x10000 + (code - 0xD800) * 0x400 + (low - 0xDC00))), cs)
    | none => some (none, cs)
  else if 0xDC00 ≤ code && code < 0xE000 then some (none, cs)
  else some (some (Char.ofNat code), cs)

/-- The character that a letter after a backslash stands for. -/
def readEscape? : List Char → Option (Option Char × List Char)
  | '"' :: cs => some (some '"', cs)
  | '\\' :: cs => some (some '\\', cs)
  | '/' :: cs => some (some '/', cs)
  | 'b' :: cs => some (some '\x08', cs)
  | 'f' :: cs => some (some '\x0c', cs)
  | 'n' :: cs => some (some '\n', cs)
  | 'r' :: cs => some (some '\r', cs)
  | 't' :: cs => some (some '\t', cs)
  | 'u' :: cs => readCode? cs
  | _ => none

/-- The rest of a text after its opening quote. A text that is well formed but has a surrogate
by itself has no characters. -/
def readStringBody? : (fuel : Nat) → List Char → Option (Option (List Char) × List Char)
  | 0, _ => none
  | _, [] => none
  | _, '"' :: cs => some (some [], cs)
  | fuel + 1, '\\' :: cs => do
    let (c, cs) ← readEscape? cs
    let (s, cs) ← readStringBody? fuel cs
    some (c.bind fun c => s.map (c :: ·), cs)
  | fuel + 1, c :: cs =>
    if c.toNat < 0x20 then none
    else do
      let (s, cs) ← readStringBody? fuel cs
      some (s.map (c :: ·), cs)

def readString? (fuel : Nat) : List Char → Option (Option String × List Char)
  | '"' :: cs => (readStringBody? fuel cs).map fun (s, cs) => (s.map String.ofList, cs)
  | _ => none

def readDigits? (cs : List Char) : Option (List Char × List Char) :=
  let ds := cs.takeWhile Char.isDigit
  if ds.isEmpty then none else some (ds, cs.dropWhile Char.isDigit)

/-- The whole part of a number: no zero in front of other digits. -/
def readWhole? (cs : List Char) : Option (List Char × List Char) := do
  let (ds, cs) ← readDigits? cs
  if ds.length > 1 && ds.head? == some '0' then none else some (ds, cs)

/-- The fraction of a number, which may be missing. -/
def readFraction? : List Char → Option (List Char × List Char)
  | '.' :: cs => (readDigits? cs).map fun (ds, cs) => ('.' :: ds, cs)
  | cs => some ([], cs)

/-- The exponent of a number, which may be missing. -/
def readExponent? : List Char → Option (List Char × List Char)
  | [] => some ([], [])
  | c :: cs =>
    if c = 'e' || c = 'E' then
      let (sign, cs) := match cs with
        | '+' :: cs => (['+'], cs)
        | '-' :: cs => (['-'], cs)
        | cs => ([], cs)
      (readDigits? cs).map fun (ds, cs) => (c :: sign ++ ds, cs)
    else some ([], c :: cs)

def readNumber? (cs : List Char) : Option (String × List Char) := do
  let (sign, cs) := match cs with
    | '-' :: cs => (['-'], cs)
    | cs => ([], cs)
  let (whole, cs) ← readWhole? cs
  let (fraction, cs) ← readFraction? cs
  let (exponent, cs) ← readExponent? cs
  some (String.ofList (sign ++ whole ++ fraction ++ exponent), cs)

/-- Items up to the closing bracket, with commas between them. -/
def readItems? {α : Type} (item : List Char → Option (α × List Char)) (close : Char) :
    (fuel : Nat) → List Char → Option (List α × List Char)
  | 0, _ => none
  | fuel + 1, cs => do
    let (a, cs) ← item (skipSpace cs)
    match skipSpace cs with
    | c :: cs =>
      if c = close then some ([a], cs)
      else if c = ',' then
        let (as, cs) ← readItems? item close fuel cs
        some (a :: as, cs)
      else none
    | [] => none

/-- The items of a container after its opening bracket. -/
def readContainer? {α : Type} (item : List Char → Option (α × List Char)) (close : Char)
    (fuel : Nat) (cs : List Char) : Option (List α × List Char) :=
  match skipSpace cs with
  | c :: rest => if c = close then some ([], rest) else readItems? item close fuel cs
  | [] => none

/-- A field of an object; none if its name has no characters. -/
def readField? (value : List Char → Option (Json × List Char)) (fuel : Nat) (cs : List Char) :
    Option (Option (String × Json) × List Char) := do
  let (name, cs) ← readString? fuel cs
  let cs ← expect? [':'] (skipSpace cs)
  let (j, cs) ← value (skipSpace cs)
  some (name.map fun name => (name, j), cs)

def ofText : Option String → Json
  | some s => .string s
  | none => .unusable

/-- The object of its fields, all of which must have names. -/
def ofFields (fields : List (Option (String × Json))) : Json :=
  match fields.mapM id with
  | some fields => .object fields
  | none => .unusable

def readValue? : (fuel : Nat) → List Char → Option (Json × List Char)
  | 0, _ | _, [] => none
  | fuel + 1, c :: cs =>
    match c with
    | 'n' => (expect? ['u', 'l', 'l'] cs).map fun cs => (.null, cs)
    | 't' => (expect? ['r', 'u', 'e'] cs).map fun cs => (.bool true, cs)
    | 'f' => (expect? ['a', 'l', 's', 'e'] cs).map fun cs => (.bool false, cs)
    | '"' => (readString? fuel (c :: cs)).map fun (s, cs) => (ofText s, cs)
    | '[' => (readContainer? (readValue? fuel) ']' fuel cs).map fun (js, cs) => (.array js, cs)
    | '\x7b' =>
      (readContainer? (readField? (readValue? fuel) fuel) '\x7d' fuel cs).map fun (fs, cs) =>
        (ofFields fs, cs)
    | _ => (readNumber? (c :: cs)).map fun (text, cs) => (.number text, cs)

def read? (s : String) : Option Json := do
  let cs := s.toList
  let (j, rest) ← readValue? (cs.length + 1) (skipSpace cs)
  if (skipSpace rest).isEmpty then some j else none

/-! ### Values of a type -/

def toBool? : Json → Option Bool
  | .bool b => some b
  | _ => none

def toString? : Json → Option String
  | .string s => some s
  | _ => none

def toList? : Json → Option (List Json)
  | .array js => some js
  | _ => none

def listOf? {α : Type} (item : Json → Option α) (j : Json) : Option (List α) := do
  (← j.toList?).mapM item

/-- An integer written without fraction and exponent; a negative zero is none. -/
def toInt? : Json → Option Int
  | .number text =>
    let cs := text.toList
    let (negative, ds) := Number.splitSign cs
    let n := Number.digitsValue 0 ds
    if !ds.all Char.isDigit || (negative && n = 0) then none
    else some (if negative then -n else n)
  | _ => none

/-- An integer that fits a word of 64 bits, with or without a sign. -/
def toWord? (j : Json) : Option Int := do
  let n ← j.toInt?
  if -Number.twoPow 63 ≤ n && n < Number.twoPow 64 then some n else none

def toUInt32? (j : Json) : Option Nat := do
  let n ← j.toInt?
  if 0 ≤ n && n < Number.twoPow 32 then some n.toNat else none

/-- The fields of a record: an object in which none of the known names occurs twice, or the
array of the values of all known names in order. -/
def record? (known : List String) : Json → Option (List (String × Json))
  | .object fields =>
    if known.all fun name => fields.countP (fun f => f.1 = name) ≤ 1 then some fields else none
  | .array items => if items.length = known.length then some (known.zip items) else none
  | _ => none

/-- A choice among words: the word, or an object with the word as its only name and null as
its value. -/
def word? : Json → Option String
  | .string s => some s
  | .object [(s, .null)] => some s
  | _ => none

def field? (fields : List (String × Json)) (name : String) : Option Json :=
  (fields.find? fun f => f.1 = name).map (·.2)

def required? {α : Type} (fields : List (String × Json)) (name : String)
    (type : Json → Option α) : Option α :=
  (field? fields name).bind type

def optional? {α : Type} (fields : List (String × Json)) (name : String)
    (type : Json → Option α) : Option (Option α) :=
  match field? fields name with
  | none | some .null => some none
  | some j => (type j).map some

def withDefault? {α : Type} (fields : List (String × Json)) (name : String) (default : α)
    (type : Json → Option α) : Option α :=
  match field? fields name with
  | none => some default
  | some j => type j

/-! ### Numbers with fractions -/

/-- The leading digits of a number that fit 64 bits, and the number of digits left. -/
def leadingDigits : (n : Nat) → List Char → Nat × Nat
  | n, [] => (n, 0)
  | n, d :: ds =>
    let next := 10 * n + (d.toNat - '0'.toNat)
    if next < Number.twoPow 64 then leadingDigits next ds else (n, (d :: ds).length)

/-- Divide by `10 ^ n`, in steps if the power is no finite number. -/
def divideByPower (f : Float) (n : Nat) : Float :=
  if n ≤ 308 then f / Number.DecimalText.toFloat ⟨false, 1, n⟩
  else if n ≤ 616 then
    f / Number.DecimalText.toFloat ⟨false, 1, 308⟩
      / Number.DecimalText.toFloat ⟨false, 1, n - 308⟩
  else 0

/-- The number `digits * 10 ^ exponent`, computed in double precision: the digits first, then
one multiplication or division. A number beyond the finite ones is refused. -/
def scaleFloat? (digits : Nat) (exponent : Int) : Option Float :=
  let f := Number.floatOfNat digits
  if digits = 0 then some 0
  else if exponent < 0 then some (divideByPower f exponent.natAbs)
  else if 308 < exponent then none
  else
    let x := f * Number.DecimalText.toFloat ⟨false, 1, exponent⟩
    if x.isFinite then some x else none

def exponentValue (cs : List Char) : Int :=
  match cs with
  | [] => 0
  | _ :: cs =>
    let (negative, ds) := Number.splitSign cs
    let e := Number.digitsValue 0 ds
    if negative then -e else e

def toFloat? : Json → Option Float
  | .number text =>
    let (negative, cs) := Number.splitSign text.toList
    let whole := cs.takeWhile Char.isDigit
    let rest := cs.dropWhile Char.isDigit
    let (fraction, rest) := match rest with
      | '.' :: more => (more.takeWhile Char.isDigit, more.dropWhile Char.isDigit)
      | _ => ([], rest)
    let (digits, dropped) := leadingDigits 0 whole
    let (digits, ignored) := leadingDigits digits fraction
    let exponent := (dropped : Int) - (fraction.length - ignored : Nat) + exponentValue rest
    (scaleFloat? digits exponent).map fun x => if negative then -x else x
  | _ => none

end Json

end Quantity.Text
