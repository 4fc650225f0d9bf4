import Quantity.Number.Reading
import Quantity.Text.Case

/-!
# Settings as they are given

Settings of all sources are put into one tree of tables and lists. A setting is put where a
path leads to; whatever is in the way of the path gives way. Keys are kept in small letters,
so the case of their letters does not count.
-/

namespace Quantity.CommandLine

open Quantity.Text (inSmallLetters)

/-- The value of a setting, or a tree of settings. -/
inductive SettingValue where
  | nothing
  | text (value : String)
  | flag (value : Bool)
  | integer (value : Int)
  | real (value : Float)
  | list (items : List SettingValue)
  /-- Values by their keys, which are distinct. -/
  | table (fields : List (String × SettingValue))
  deriving Inhabited

/-- One step on the way to a setting. -/
inductive Step where
  | key (name : String)
  /-- An item of a list, counted from the end if negative. -/
  | item (index : Int)
  deriving DecidableEq, Repr

/-- A setting and the way to it. -/
structure Setting where
  path : List Step
  value : SettingValue
  deriving Inhabited

namespace SettingValue

def fields : SettingValue → List (String × SettingValue)
  | table fields => fields
  | _ => []

def items : SettingValue → List SettingValue
  | list items => items
  | _ => []

def field? (t : SettingValue) (name : String) : Option SettingValue :=
  (t.fields.find? fun f => f.1 = name).map (·.2)

/-- Put a value under a key; another one under the same key gives way. -/
def putField (name : String) (value : SettingValue) :
    List (String × SettingValue) → List (String × SettingValue)
  | [] => [(name, value)]
  | f :: fs => if f.1 = name then (name, value) :: fs else f :: putField name value fs

/-- The table with a value under a key. What is no table is taken for an empty one. -/
def withField (t : SettingValue) (name : String) (value : SettingValue) : SettingValue :=
  table (putField name value t.fields)

def placeOf (index : Int) (items : List SettingValue) : Nat :=
  if 0 ≤ index then index.toNat else items.length - index.natAbs

/-- Put a value in a place of a list, which is filled up as far as need be. -/
def putItem (place : Nat) (value : SettingValue) (items : List SettingValue) :
    List SettingValue :=
  if place < items.length then items.set place value
  else items ++ List.replicate (place - items.length) nothing ++ [value]

mutual

/-- The table with a value merged into what is under a key: a table adds to a table, and
anything else replaces it. -/
def merge (t : SettingValue) (name : String) : SettingValue → SettingValue
  | table fields =>
    let name := inSmallLetters name
    t.withField name (((t.field? name).getD (table [])).mergeAll fields)
  | value => t.withField (inSmallLetters name) value

/-- The table with all of the fields merged into it. -/
def mergeAll (t : SettingValue) : List (String × SettingValue) → SettingValue
  | [] => t
  | (name, value) :: fields => (t.merge name value).mergeAll fields

end

def put (value : SettingValue) : (path : List Step) → SettingValue → SettingValue
  | [], _ => value
  | [.key name], t => t.merge name value
  | .key name :: more, t =>
    let name := inSmallLetters name
    t.withField name (put value more ((t.field? name).getD nothing))
  | .item index :: more, t =>
    let place := placeOf index t.items
    list (putItem place (put value more ((t.items[place]?).getD nothing)) t.items)

end SettingValue

/-- The tree of settings, the later ones of which take precedence. -/
def treeOf (settings : List Setting) : SettingValue :=
  settings.foldl (fun t s => SettingValue.put s.value s.path t) (.table [])

/-! ### Paths in keys -/

namespace Step

/-- Whether the character may stand in a key of a path. -/
def isKeyChar (c : Char) : Bool := c.isAlphanum || c = ' ' || c = '_' || c = '-'

def readKey? (cs : List Char) : Option (Step × List Char) :=
  let name := cs.takeWhile isKeyChar
  if name.isEmpty then none else some (key (String.ofList name), cs.dropWhile isKeyChar)

def readIndex? (cs : List Char) : Option (Step × List Char) :=
  let isGap (c : Char) : Bool := c = ' ' || c = '\t'
  let (negative, cs) := match cs.dropWhile isGap with
    | '-' :: cs => (true, cs)
    | cs => (false, cs)
  let digits := cs.takeWhile Char.isDigit
  let n : Int := Number.digitsValue 0 digits
  match (cs.dropWhile Char.isDigit).dropWhile isGap with
  | ']' :: cs =>
    if digits.isEmpty || Number.twoPow 63 ≤ n then none
    else some (item (if negative then -n else n), cs)
  | _ => none

/-- Steps with a dot before each key and brackets around each index; `fuel` bounds their
number. -/
def readMore? : (fuel : Nat) → List Char → Option (List Step)
  | _, [] => some []
  | 0, _ => none
  | fuel + 1, '.' :: cs => do
    let (step, cs) ← readKey? cs
    (readMore? fuel cs).map (step :: ·)
  | fuel + 1, '[' :: cs => do
    let (step, cs) ← readIndex? cs
    (readMore? fuel cs).map (step :: ·)
  | _, _ => none

/-- The path that a text spells out; a text that spells none is a key as a whole. -/
def path (text : String) : List Step :=
  let cs := text.toList
  let steps : Option (List Step) := do
    let (step, rest) ← readKey? cs
    (readMore? cs.length rest).map (step :: ·)
  steps.getD [key text]

end Step

end Quantity.CommandLine
