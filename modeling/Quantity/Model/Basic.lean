import Quantity.Expr.Encoding

/-!
# Models

A model holds the units and scales of one or several definitions texts in order, and the
operations between units. Entries refer to each other by their place. The entries from
`lateUnits` and `lateScales` on were added last.
-/

namespace Quantity

abbrev FamilyId := UInt32

/-- The id that follows, unless it was the last one. -/
def FamilyId.next? (f : FamilyId) : Option FamilyId :=
  if f.toNat + 1 < UInt32.size then some (f + 1) else none

/-- Where an entry comes from. -/
inductive Origin where
  /-- The definitions text at hand. -/
  | declared (span : Span)
  /-- A module that was loaded before. -/
  | restored (module : String)
  deriving DecidableEq, Repr

namespace Origin

def span? : Origin → Option Span
  | declared s => some s
  | restored _ => none

def module? : Origin → Option String
  | declared _ => none
  | restored m => some m

/-- The origin once everything declared so far belongs to a module. -/
def settle (module : String) : Origin → Origin
  | declared _ => restored module
  | o => o

end Origin

/-- A unit of a model. -/
structure UnitEntry where
  name : String
  origin : Origin
  kind : NumericKind
  dimension : DimensionExpr
  factor : NumeralExpr
  format : String := ""
  tags : List String := []
  family : Option FamilyId := none
  /-- The first unit of the family, if it is another one. -/
  prime : Option Nat := none
  /-- The factor in terms of the prime. -/
  relativeFactor : Option NumeralExpr := none
  /-- The other units of the family. -/
  relatives : List Nat := []
  /-- The operations in which the unit takes part. -/
  operations : List Nat := []
  /-- Whether the name was used by an earlier unit. -/
  redeclared : Bool := false
  /-- Whether the declaration has a meaning. -/
  valid : Bool := false
  deriving DecidableEq

namespace UnitEntry

def symbol (u : UnitEntry) : String := u.tags.headD u.name

def isPrime (u : UnitEntry) : Bool := u.family.isSome && u.prime.isNone

def summary (u : UnitEntry) : UnitSummary :=
  ⟨u.name, u.kind, u.dimension.value, u.factor.value, u.factor.constant⟩

end UnitEntry

/-- A scale of a model. -/
structure ScaleEntry where
  name : String
  origin : Origin
  unit : Option Nat
  offset : NumeralExpr
  refPoint : Option String
  format : String := ""
  family : Option FamilyId := none
  /-- The first scale of the family, if it is another one. -/
  prime : Option Nat := none
  /-- The other scales of the family. -/
  relatives : List Nat := []
  /-- Whether the declaration has a meaning. -/
  valid : Bool := false
  deriving DecidableEq

def ScaleEntry.refPointLabel (s : ScaleEntry) : String :=
  s.refPoint.getD "<common reference point>"

/-- The operations between units. -/
inductive Operator where
  | product
  | quotient
  deriving DecidableEq, Repr

def Operator.symbol : Operator → String
  | product => "*"
  | quotient => "/"

/-- A side of an operation. -/
inductive Operand where
  | unit (index : Nat)
  /-- A plain number of a kind. -/
  | number (kind : NumericKind)
  deriving DecidableEq, Repr

/-- An operation between units, or between a number and a unit. -/
structure Operation where
  operator : Operator
  lhs : Operand
  rhs : Operand
  result : Operand
  deriving DecidableEq, Repr

namespace Operation

def operands (o : Operation) : List Operand := [o.lhs, o.rhs, o.result]

/-- Whether the unit at a place takes part in the operation. -/
def involves (o : Operation) (i : Nat) : Bool := o.operands.contains (.unit i)

end Operation

/-- The units, scales and operations of definitions. -/
structure Model where
  units : List UnitEntry := []
  scales : List ScaleEntry := []
  operations : List Operation := []
  lateUnits : Nat := 0
  lateScales : Nat := 0
  deriving DecidableEq

namespace Model

def beginLate (m : Model) : Model :=
  { m with lateUnits := m.units.length, lateScales := m.scales.length }

/-- The model once everything declared so far belongs to a module. -/
def settle (m : Model) (module : String) : Model :=
  { m with
    units := m.units.map fun u => { u with origin := u.origin.settle module }
    scales := m.scales.map fun s => { s with origin := s.origin.settle module } }

/-- The places of the entries with a property, in order. -/
def places {α : Type} (xs : List α) (p : α → Bool) : List Nat :=
  xs.zipIdx.filterMap fun (x, i) => if p x then some i else none

def findUnit? (m : Model) (name : String) : Option Nat :=
  (places m.units (·.name = name)).getLast?

def findTag? (m : Model) (tag : String) : Option Nat :=
  (places m.units (·.tags.contains tag)).getLast?

def findScale? (m : Model) (name : String) : Option Nat :=
  (places m.scales (·.name = name)).getLast?

def familyUnits (m : Model) (f : FamilyId) : List Nat := places m.units (·.family = some f)

def familyScales (m : Model) (f : FamilyId) : List Nat := places m.scales (·.family = some f)

def operationsOf (m : Model) (i : Nat) : List Operation :=
  match m.units[i]? with
  | some u => u.operations.filterMap fun k => m.operations[k]?
  | none => []

def familyIds (m : Model) : List FamilyId :=
  m.units.filterMap (·.family) ++ m.scales.filterMap (·.family)

def maxFamily? (m : Model) : Option FamilyId := m.familyIds.max?

end Model

end Quantity
