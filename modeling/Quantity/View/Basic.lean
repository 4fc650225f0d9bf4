import Quantity.Model.Basic

/-!
# Views

A view is the part of a model that is handed to a generator or written out. Entries refer to
each other by name instead of by place, so a view can be read without the model it was taken
from. Units that the shown entries refer to, but that are not shown themselves, are kept apart
as externals.
-/

namespace Quantity

/-- A side of an operation in a view. -/
structure OperandView where
  /-- The name of the unit, or the type of a plain number. -/
  name : String
  /-- The module of a unit that is not shown. -/
  module : Option String := none
  /-- Whether the operand is a plain number. -/
  number : Bool := false
  deriving DecidableEq, Repr

def OperandView.path (o : OperandView) : String :=
  match o.module with
  | some m => m ++ "::" ++ o.name
  | none => o.name

/-- An operation in a view. -/
structure OperationView where
  operator : Operator
  lhs : OperandView
  rhs : OperandView
  result : OperandView
  deriving DecidableEq, Repr

namespace OperationView

def text (o : OperationView) : String :=
  o.lhs.name ++ " " ++ o.operator.symbol ++ " " ++ o.rhs.name ++ " -> " ++ o.result.name

def sides (o : OperationView) : List OperandView := [o.lhs, o.rhs]

end OperationView

/-- A unit in a view. -/
structure UnitView where
  name : String
  /-- The module the unit was loaded from. -/
  module : Option String
  kind : NumericKind
  /-- The type of the unit's numbers in generated source. -/
  numericType : String
  /-- The number one in generated source. -/
  one : String
  /-- The number zero in generated source. -/
  zero : String
  dimension : DimensionExpr
  factor : NumeralExpr
  relativeFactor : Option NumeralExpr
  format : String
  tags : List String
  family : Option FamilyId
  prime : Option String
  relatives : List String
  operations : List OperationView
  valid : Bool
  deriving DecidableEq

namespace UnitView

def symbol (u : UnitView) : String := u.tags.headD u.name

def isPrime (u : UnitView) : Bool := u.family.isSome && u.prime.isNone

end UnitView

/-- A scale in a view. -/
structure ScaleView where
  name : String
  /-- The module the scale was loaded from. -/
  module : Option String
  unit : Option String
  offset : NumeralExpr
  /-- The point of reference in words. -/
  refPoint : String
  /-- Whether the declaration left out the point of reference. -/
  refPointImplicit : Bool
  format : String
  family : Option FamilyId
  prime : Option String
  relatives : List String
  valid : Bool
  deriving DecidableEq

/-- A selection of the entries of a model. -/
structure View where
  units : List UnitView
  /-- Units that are referred to, but belong to another module. -/
  externals : List UnitView
  scales : List ScaleView
  operations : List OperationView
  deriving DecidableEq

/-- A unit found in a view. -/
structure FoundUnit where
  unit : UnitView
  /-- Whether the unit is one of the externals. -/
  external : Bool

namespace View

def shownUnit? (v : View) (name : String) : Option UnitView :=
  v.units.reverse.find? (·.name = name)

/-- The last unit of a name, first among the shown units, then among the externals. -/
def unit? (v : View) (name : String) : Option FoundUnit :=
  match v.shownUnit? name with
  | some u => some ⟨u, false⟩
  | none => (v.externals.reverse.find? (·.name = name)).map fun u => ⟨u, true⟩

/-- The unit of an operand: a shown unit, or the external one of its module. -/
def operandUnit? (v : View) (o : OperandView) : Option UnitView :=
  if o.number then none
  else match o.module with
    | some m => v.externals.find? fun u => u.name = o.name && u.module = some m
    | none => v.shownUnit? o.name

def scale? (v : View) (name : String) : Option ScaleView :=
  v.scales.reverse.find? (·.name = name)

def shows (v : View) (name : String) : Bool := v.units.any (·.name = name)

def isEmpty (v : View) : Bool := v.units.isEmpty && v.scales.isEmpty

end View

end Quantity
