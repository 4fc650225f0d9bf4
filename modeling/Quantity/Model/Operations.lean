import Quantity.Model.Basic
import Quantity.Options

/-!
# Operations between units

The product of two units is a unit again if some unit has its dimension, and so are their
quotient and the reciprocal of a unit. A product of reciprocal dimensions is a plain number.
Of several units of the dimension the result is the one with the right factor, or else the
prime of its family, or else the first.
-/

namespace Quantity.Model

/-- A unit that takes part in operations, and its place. -/
structure Candidate where
  place : Nat
  unit : UnitEntry

/-- The units that take part in operations: those with a family and a dimension. -/
def candidates (units : List UnitEntry) : List Candidate :=
  units.zipIdx.filterMap fun (u, i) =>
    if u.valid && u.family.isSome && !u.dimension.value.isNone then some ⟨i, u⟩ else none

def candidatesOf (cs : List Candidate) (d : Dimension) (kind : NumericKind) : List Candidate :=
  cs.filter fun c => c.unit.dimension.value = d && c.unit.kind = kind

/-- The result of an operation whose value in base units is `target`. -/
def pickResult (cs : List Candidate) (target : Option Numeral) : Option Candidate :=
  let exact := target.bind fun t =>
    cs.find? fun c => c.unit.factor.value.approxEq t factorTolerance
  (exact.or (cs.find? fun c => c.unit.isPrime)).or cs.head?

/-- The unit with the value of an operation, if some unit has its dimension. -/
def resultUnit? (cs : List Candidate) (d : Dimension) (kind : NumericKind)
    (target : Except NumeralError Numeral) : Option Operand :=
  (pickResult (candidatesOf cs d kind) target.toOption).map fun c => .unit c.place

/-- The product of two units, if it is a number or a unit. -/
def product? (cs : List Candidate) (l r : Candidate) : Option Operation := do
  let d ← (l.unit.dimension.value.mul r.unit.dimension.value).toOption
  let result ←
    if d.isNone then some (.number l.unit.kind)
    else resultUnit? cs d l.unit.kind (l.unit.factor.value.mul r.unit.factor.value)
  some ⟨.product, .unit l.place, .unit r.place, result⟩

/-- The quotient of two units of different families, if it is a unit. -/
def quotient? (cs : List Candidate) (l r : Candidate) : Option Operation := do
  let d ← (l.unit.dimension.value.div r.unit.dimension.value).toOption
  if l.unit.family = r.unit.family || d.isNone then none
  else
    let result ← resultUnit? cs d l.unit.kind (l.unit.factor.value.div r.unit.factor.value)
    some ⟨.quotient, .unit l.place, .unit r.place, result⟩

def reciprocal? (cs : List Candidate) (r : Candidate) : Option Operation := do
  let d ← r.unit.dimension.value.inv.toOption
  let result ← resultUnit? cs d r.unit.kind (r.unit.kind.one.div r.unit.factor.value)
  some ⟨.quotient, .number r.unit.kind, .unit r.place, result⟩

/-- The product and the quotient of two units of one kind. -/
def pairOperations (cs : List Candidate) (l r : Candidate) : List Operation :=
  if l.unit.kind = r.unit.kind then (product? cs l r).toList ++ (quotient? cs l r).toList else []

/-- All operations: the products and quotients of all pairs, then the reciprocals. -/
def operationTable (units : List UnitEntry) : List Operation :=
  let cs := candidates units
  (cs.flatMap fun l => cs.flatMap fun r => pairOperations cs l r)
    ++ cs.filterMap (reciprocal? cs)

/-- Compute the operations of a model, and connect the units with them. -/
def resolveOperations (m : Model) : Model :=
  let operations := operationTable m.units
  { m with
    operations
    units := m.units.mapIdx fun i u => { u with operations := places operations (·.involves i) } }

end Quantity.Model
