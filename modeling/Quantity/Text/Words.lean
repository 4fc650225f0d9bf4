import Quantity.Text.Blank
import Quantity.Text.Case
import Quantity.Text.Letter

/-!
# Words of a name

A name is cut into words at every character that is neither letter nor numeric, where a
small letter is followed by a capital, and before the last of several capitals that a small
letter follows. The words in small letters, joined by underscores, are the file name of the
entry.
-/

namespace Quantity.Text

def isNameChar (c : Char) : Bool := isLetter c || isNumeric c

/-- The case of the letters just passed within a word. -/
inductive WordCase where
  /-- A word has just begun. -/
  | boundary
  | small
  | capital
  deriving DecidableEq, Repr

/-- Cut a piece without separators into words. `word` holds the current word so far, in
reverse. -/
def cutWords (mode : WordCase) (word : List Char) : List Char → List (List Char)
  | [] => [word.reverse]
  | [c] => [(c :: word).reverse]
  | c :: n :: cs =>
    let next := if isSmall c then .small else if isCapital c then .capital else mode
    if next = .small && isCapital n then
      (c :: word).reverse :: cutWords .boundary [] (n :: cs)
    else if mode = .capital && isCapital c && isSmall n then
      word.reverse :: cutWords .boundary [c] (n :: cs)
    else cutWords next (c :: word) (n :: cs)

def pieces (cs : List Char) : List (List Char) :=
  (cs.splitBy fun a b => isNameChar a == isNameChar b).filter fun p => p.any isNameChar

/-- A word in small letters. A capital sigma at the end becomes the final form. -/
def smallWord : List Char → List Char
  | [] => []
  | [c] => if c.toNat = 0x3A3 then [Char.ofNat 0x3C2] else smallForm c
  | c :: cs => smallForm c ++ smallWord cs

def words (name : String) : List (List Char) :=
  (pieces name.toList).flatMap (cutWords .boundary [])

/-- The words of a name in small letters, joined by underscores. -/
def snakeCase (name : String) : String :=
  String.intercalate "_" ((words name).map fun w => String.ofList (smallWord w))

end Quantity.Text
