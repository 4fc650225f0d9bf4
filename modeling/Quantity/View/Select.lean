import Quantity.View.Basic

/-!
# The view of a model

A model can be viewed in full, or only as far as it was added last. An operation is shown if
one of its units is. The externals are the other units that a shown entry or operation refers
to, in the order of the model.
-/

namespace Quantity

/-- A choice of entries, by their places. -/
structure Selection where
  unit : Nat → Bool
  scale : Nat → Bool

namespace Selection

/-- Everything. -/
def full : Selection := ⟨fun _ => true, fun _ => true⟩

/-- The late entries. -/
def late (m : Model) : Selection := ⟨fun i => m.lateUnits ≤ i, fun i => m.lateScales ≤ i⟩

/-- Whether a unit of the operation is chosen. -/
def operation (s : Selection) (o : Operation) : Bool :=
  o.operands.any fun
    | .unit i => s.unit i
    | .number _ => false

end Selection

namespace Model

/-- The chosen items of a list. -/
def chosen {α : Type} (xs : List α) (choice : Nat → Bool) : List α :=
  xs.zipIdx.filterMap fun (x, i) => if choice i then some x else none

/-- The name of the unit at a place. -/
def unitName? (m : Model) (i : Nat) : Option String := (m.units[i]?).map (·.name)

/-- The name of the scale at a place. -/
def scaleName? (m : Model) (i : Nat) : Option String := (m.scales[i]?).map (·.name)

/-- The operations with a chosen unit. -/
def chosenOperations (m : Model) (s : Selection) : List Operation :=
  m.operations.filter s.operation

/-- Whether a chosen entry or operation refers to the unit at a place. -/
def refersTo (m : Model) (s : Selection) (i : Nat) : Bool :=
  (m.chosenOperations s).any (·.involves i)
    || (chosen m.units s.unit).any (fun u => u.prime = some i || u.relatives.contains i)
    || (chosen m.scales s.scale).any (·.unit = some i)

/-- Whether the unit at a place is an external one. -/
def isExternal (m : Model) (s : Selection) (i : Nat) : Bool := !s.unit i && m.refersTo s i

/-- An operand in a view; a unit that is not shown keeps its module. -/
def viewOperand (m : Model) (s : Selection) : Operand → OperandView
  | .unit i =>
    let module := if s.unit i then none else (m.units[i]?).bind (·.origin.module?)
    { name := (m.unitName? i).getD "", module }
  | .number k => { name := k.typeName, number := true }

/-- The view of an operation. -/
def viewOperation (m : Model) (s : Selection) (o : Operation) : OperationView :=
  ⟨o.operator, m.viewOperand s o.lhs, m.viewOperand s o.rhs, m.viewOperand s o.result⟩

/-- The unit at a place in a view, with the shown operations in which it takes part. -/
def viewUnit (m : Model) (s : Selection) (i : Nat) (u : UnitEntry) : UnitView :=
  { name := u.name
    module := u.origin.module?
    kind := u.kind
    numericType := u.kind.typeName
    one := u.kind.one.literal
    zero := u.kind.zero.literal
    dimension := u.dimension
    factor := u.factor
    relativeFactor := u.relativeFactor
    format := u.format
    tags := u.tags
    family := u.family
    prime := u.prime.bind m.unitName?
    relatives := u.relatives.filterMap m.unitName?
    operations := ((m.chosenOperations s).filter (·.involves i)).map (m.viewOperation s)
    valid := u.valid }

/-- The units at the places of a choice in a view. -/
def viewUnits (m : Model) (s : Selection) (choice : Nat → Bool) : List UnitView :=
  m.units.zipIdx.filterMap fun (u, i) => if choice i then some (m.viewUnit s i u) else none

/-- The view of a scale. -/
def viewScale (m : Model) (e : ScaleEntry) : ScaleView :=
  { name := e.name
    module := e.origin.module?
    unit := e.unit.bind m.unitName?
    offset := e.offset
    refPoint := e.refPointLabel
    refPointImplicit := e.refPoint.isNone
    format := e.format
    family := e.family
    prime := e.prime.bind m.scaleName?
    relatives := e.relatives.filterMap m.scaleName?
    valid := e.valid }

/-- The view of a selection. -/
def view (m : Model) (s : Selection) : View :=
  { units := m.viewUnits s s.unit
    externals := m.viewUnits s (m.isExternal s)
    scales := (chosen m.scales s.scale).map m.viewScale
    operations := (m.chosenOperations s).map (m.viewOperation s) }

/-- The view of everything. -/
def fullView (m : Model) : View := m.view .full

/-- The view of the late entries. -/
def lateView (m : Model) : View := m.view (.late m)

end Model

end Quantity
