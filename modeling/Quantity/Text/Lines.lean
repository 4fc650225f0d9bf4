/-!
# Lines of a text

A line ends with a line feed, before which a carriage return does not count. What follows the
last line feed is a line too, unless it is empty.
-/

namespace Quantity.Text

/-- A line without the carriage return before its end. -/
def dropReturn (line : List Char) : List Char :=
  if line.getLast? = some '\r' then line.dropLast else line

/-- The lines of the characters. `line` holds the current line so far, in reverse. -/
def splitLines (line : List Char) : List Char → List (List Char)
  | [] => if line.isEmpty then [] else [line.reverse]
  | c :: cs =>
    if c = '\n' then dropReturn line.reverse :: splitLines [] cs else splitLines (c :: line) cs

def lines (text : String) : List String := (splitLines [] text.toList).map String.ofList

/-- A text without the mark of the order of bytes in front of it. -/
def dropMark (text : String) : String :=
  match text.toList with
  | c :: cs => if c.toNat = 0xFEFF then String.ofList cs else text
  | [] => text

def stripStart? (start cs : List Char) : Option (List Char) :=
  if start.isPrefixOf cs then some (cs.drop start.length) else none

def stripEnd? (ending cs : List Char) : Option (List Char) :=
  if ending.isSuffixOf cs then some (cs.take (cs.length - ending.length)) else none

end Quantity.Text
