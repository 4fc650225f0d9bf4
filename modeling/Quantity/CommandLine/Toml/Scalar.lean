import Quantity.CommandLine.Setting
import Quantity.Text.Json

/-!
# Keys, texts and numbers in TOML

A text stands in double quotes, between which a backslash escapes, or in single quotes, between
which nothing does. After three quotes it may go on over several lines, and a line break right
behind them does not count. Digits of numbers may be grouped by underscores.
-/

namespace Quantity.CommandLine.Toml

open Quantity.Text (Json)

/-- Whether the character may stand between the parts of a line. -/
def isGap (c : Char) : Bool := c = ' ' || c = '\t'

def skipGap (cs : List Char) : List Char := cs.dropWhile isGap

/-- Whether the character may stand for itself in a text or a comment. -/
def isPlain (c : Char) : Bool := c = '\t' || (0x20 ≤ c.toNat && c.toNat ≠ 0x7F)

def lineBreak? : List Char → Option (List Char)
  | '\n' :: cs => some cs
  | '\r' :: '\n' :: cs => some cs
  | _ => none

/-! ### Texts on one line -/

def readLongCode? (cs : List Char) : Option (Char × List Char) := do
  let (high, cs) ← Json.readHex4? cs
  let (low, cs) ← Json.readHex4? cs
  let n := high * 0x10000 + low
  if n.isValidChar then some (Char.ofNat n, cs) else none

def readShortCode? (cs : List Char) : Option (Char × List Char) := do
  let (n, cs) ← Json.readHex4? cs
  if n.isValidChar then some (Char.ofNat n, cs) else none

/-- The character that an escape stands for, after its backslash. -/
def readEscape? : List Char → Option (Char × List Char)
  | 'b' :: cs => some ('\x08', cs)
  | 't' :: cs => some ('\t', cs)
  | 'n' :: cs => some ('\n', cs)
  | 'f' :: cs => some ('\x0c', cs)
  | 'r' :: cs => some ('\r', cs)
  | '"' :: cs => some ('"', cs)
  | '\\' :: cs => some ('\\', cs)
  | 'u' :: cs => readShortCode? cs
  | 'U' :: cs => readLongCode? cs
  | _ => none

/-- The rest of a text in double quotes; `fuel` bounds the number of characters. -/
def readText? : (fuel : Nat) → List Char → Option (List Char × List Char)
  | 0, _ | _, [] => none
  | _, '"' :: cs => some ([], cs)
  | fuel + 1, '\\' :: cs => do
    let (c, cs) ← readEscape? cs
    let (text, cs) ← readText? fuel cs
    some (c :: text, cs)
  | fuel + 1, c :: cs =>
    if isPlain c then (readText? fuel cs).map fun (text, cs) => (c :: text, cs) else none

def readLiteral? (cs : List Char) : Option (List Char × List Char) :=
  let text := cs.takeWhile (· ≠ '\'')
  match cs.dropWhile (· ≠ '\'') with
  | _ :: rest => if text.all isPlain then some (text, rest) else none
  | [] => none

/-! ### Texts over several lines -/

/-- The end of a text over several lines: the last of its own quotes, of which there may be two,
and what follows the three that close it. -/
def closeLong? (quote : Char) (cs : List Char) : Option (List Char × List Char) :=
  let count := min 5 (cs.takeWhile (· = quote)).length
  if 3 ≤ count then some (List.replicate (count - 3) quote, cs.drop count) else none

def skipBlank : List Char → List Char
  | [] => []
  | '\r' :: '\n' :: cs => skipBlank cs
  | c :: cs => if isGap c || c = '\n' then skipBlank cs else c :: cs

/-- What follows an escaped line break and all blanks behind it, after its backslash. -/
def escapedBreak? (cs : List Char) : Option (List Char) :=
  (lineBreak? (skipGap cs)).map skipBlank

/-- The rest of a text over several lines; `fuel` bounds the number of characters. -/
def readLong? (quote : Char) : (fuel : Nat) → List Char → Option (List Char × List Char)
  | 0, _ | _, [] => none
  | fuel + 1, c :: cs =>
    let goOn (c : Char) (cs : List Char) : Option (List Char × List Char) :=
      (readLong? quote fuel cs).map fun (text, cs) => (c :: text, cs)
    if c = quote then
      match closeLong? quote (c :: cs) with
      | some closed => some closed
      | none => goOn c cs
    else if c = '\\' && quote = '"' then
      match escapedBreak? cs with
      | some cs => readLong? quote fuel cs
      | none => do
        let (c, cs) ← readEscape? cs
        goOn c cs
    else match lineBreak? (c :: cs) with
      | some cs => goOn '\n' cs
      | none => if isPlain c then goOn c cs else none

/-- A text over several lines, after its three quotes. -/
def readLines? (quote : Char) (cs : List Char) : Option (List Char × List Char) :=
  let cs := (lineBreak? cs).getD cs
  readLong? quote (cs.length + 1) cs

def readQuoted? (cs : List Char) : Option (String × List Char) :=
  let text := match cs with
    | '"' :: '"' :: '"' :: cs => readLines? '"' cs
    | '\'' :: '\'' :: '\'' :: cs => readLines? '\'' cs
    | '"' :: cs => readText? (cs.length + 1) cs
    | '\'' :: cs => readLiteral? cs
    | _ => none
  text.map fun (text, cs) => (String.ofList text, cs)

/-! ### Keys -/

/-- Whether the character may stand in a key without quotes. -/
def isKeyChar (c : Char) : Bool := c.isAlphanum || c = '_' || c = '-'

def readKey? (cs : List Char) : Option (String × List Char) :=
  match cs with
  | '"' :: rest => (readText? (rest.length + 1) rest).map fun (k, cs) => (String.ofList k, cs)
  | '\'' :: rest => (readLiteral? rest).map fun (k, cs) => (String.ofList k, cs)
  | _ =>
    let key := cs.takeWhile isKeyChar
    if key.isEmpty then none else some (String.ofList key, cs.dropWhile isKeyChar)

/-- Keys with dots between them; `fuel` bounds their number. -/
def readKeys? : (fuel : Nat) → List Char → Option (List String × List Char)
  | 0, _ => none
  | fuel + 1, cs => do
    let (key, cs) ← readKey? (skipGap cs)
    match skipGap cs with
    | '.' :: cs =>
      let (keys, cs) ← readKeys? fuel cs
      some (key :: keys, cs)
    | cs => some ([key], cs)

/-! ### Numbers -/

/-- The digits of a number, between which single underscores may stand. -/
def digitGroups? (isDigit : Char → Bool) (cs : List Char) : Option (List Char) :=
  let groups := (String.ofList cs).splitOn "_"
  if groups.all fun g => !g.isEmpty && g.all isDigit then some (groups.flatMap String.toList)
  else none

def valueIn (base : Nat) (ds : List Char) : Option Int :=
  ds.foldlM (fun (n : Int) d => (Json.hexValue? d).map fun v => base * n + v) 0

def fitting? (n : Int) : Option Int :=
  if -Number.twoPow 63 ≤ n && n < Number.twoPow 63 then some n else none

/-- Decimal digits of a whole number: no zero in front of others. -/
def wholeDigits? (cs : List Char) : Option (List Char) := do
  let ds ← digitGroups? Char.isDigit cs
  if ds.length > 1 && ds.head? = some '0' then none else some ds

/-- An integer, in decimal, hexadecimal, octal or binary digits. -/
def integer? (cs : List Char) : Option Int := do
  match cs with
  | '0' :: 'x' :: ds => fitting? (← valueIn 16 (← digitGroups? (Json.hexValue? · |>.isSome) ds))
  | '0' :: 'o' :: ds => fitting? (← valueIn 8 (← digitGroups? (fun d => '0' ≤ d && d ≤ '7') ds))
  | '0' :: 'b' :: ds => fitting? (← valueIn 2 (← digitGroups? (fun d => d = '0' || d = '1') ds))
  | _ =>
    let (negative, ds) := Number.splitSign cs
    let n ← valueIn 10 (← wholeDigits? ds)
    fitting? (if negative then -n else n)

/-- Whether the text is an exponent with its mark, or empty. -/
def isExponent : List Char → Bool
  | [] => true
  | _ :: cs => (digitGroups? Char.isDigit (Number.splitSign cs).2).isSome

/-- Whether the text is a fraction with its point and perhaps an exponent, or an exponent. -/
def isFraction : List Char → Bool
  | [] => false
  | '.' :: cs =>
    let isMark (c : Char) : Bool := c = 'e' || c = 'E'
    (digitGroups? Char.isDigit (cs.takeWhile (!isMark ·))).isSome
      && isExponent (cs.dropWhile (!isMark ·))
  | cs => isExponent cs

/-- A number with a fraction or an exponent, or one that is not finite. -/
def float? (cs : List Char) : Option Float :=
  let (_, word) := Number.splitSign cs
  let isInner (c : Char) : Bool := c = '.' || c = 'e' || c = 'E'
  if word = "inf".toList || word = "nan".toList then Number.nonFinite? cs
  else if (wholeDigits? (word.takeWhile (!isInner ·))).isSome
      && isFraction (word.dropWhile (!isInner ·)) then
    (Number.readFloat? (cs.filter (· ≠ '_'))).filter (· != 1 / 0)
  else none

/-- Whether the character may stand in a word without quotes. -/
def isWordChar (c : Char) : Bool := isKeyChar c || c = '+' || c = '.'

/-- The value of a word without quotes: a truth value or a number. -/
def bareValue? (word : List Char) : Option SettingValue :=
  if word = "true".toList then some (.flag true)
  else if word = "false".toList then some (.flag false)
  else ((integer? word).map .integer).or ((float? word).map .real)

def readBare? (cs : List Char) : Option (SettingValue × List Char) :=
  (bareValue? (cs.takeWhile isWordChar)).map fun v => (v, cs.dropWhile isWordChar)

end Quantity.CommandLine.Toml
