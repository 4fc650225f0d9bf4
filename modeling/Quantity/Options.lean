import Quantity.Numeral

/-!
# Options of a compilation
-/

namespace Quantity

/-- What to do with a late unit whose name is already taken. -/
inductive Redeclaration where
  /-- Accept it as a new unit in a family of its own. -/
  | newFamily
  /-- Accept it as another name for the earlier unit, if the two agree. -/
  | sameUnit
  /-- Refuse it. -/
  | reject
  deriving DecidableEq, Repr

def Redeclaration.word : Redeclaration → String
  | newFamily => "new-family"
  | sameUnit => "alias"
  | reject => "reject"

def Redeclaration.ofWord? (word : String) : Option Redeclaration :=
  [newFamily, sameUnit, reject].find? fun r => r.word = word

/-- How definitions are compiled. -/
structure Options where
  /-- The kind of units that declare none. -/
  kind : NumericKind := .double
  /-- The format of units that declare none. -/
  format : String := "\x7b0\x7d \x7b1\x7d"
  /-- The first family id that may be given out. -/
  firstFamily : UInt32 := 0
  redeclaration : Redeclaration := .newFamily
  /-- The name of the text in diagnostics. -/
  source : Option String := none
  deriving DecidableEq, Repr

/-- The relative tolerance within which two factors are the same. -/
def factorTolerance : Float := 1e-9

end Quantity
