import Quantity.Diagnostic
import Quantity.Model.Basic

/-!
# Families

Units of the same dimension form a family, and so do scales with the same point of reference
over one family of units. The first member of a family is its prime; every other unit of the
family has a factor relative to it. Families that were numbered before keep their numbers.
-/

namespace Quantity.Model

/-! ### Numbering -/

/-- Numbers that were given to families, and the next one to give. -/
structure Numbering (κ : Type) where
  known : List (κ × FamilyId)
  next : FamilyId

namespace Numbering

variable {κ : Type} [DecidableEq κ]

/-- The number of a key: the first one it was given. -/
def get? (n : Numbering κ) (key : κ) : Option FamilyId :=
  (n.known.find? fun e => e.1 = key).map (·.2)

/-- A new number, if another one is left behind it. -/
def fresh (n : Numbering κ) : Option (FamilyId × Numbering κ) := do
  let next ← n.next.next?
  return (n.next, { n with next })

/-- The number of a key, a new one if it has none. -/
def number (n : Numbering κ) (key : κ) : Option (FamilyId × Numbering κ) :=
  match n.get? key with
  | some f => some (f, n)
  | none => do
    let (f, n) ← n.fresh
    return (f, { n with known := n.known ++ [(key, f)] })

end Numbering

/-- The dimensions of the units that have a family. -/
def unitFamilies (units : List UnitEntry) : List (Dimension × FamilyId) :=
  units.filterMap fun u => if u.valid then u.family.map (u.dimension.value, ·) else none

/-- Give every valid unit a family: that of its dimension, or a new one of its own if it
reuses an earlier name. The next number is given too. -/
def numberUnits (n : Numbering Dimension) :
    List UnitEntry → Option (List UnitEntry × FamilyId)
  | [] => some ([], n.next)
  | u :: us =>
    if !u.valid || u.family.isSome then do
      let (us, next) ← numberUnits n us
      return (u :: us, next)
    else do
      let (f, n) ← (if u.redeclared then n.fresh else n.number u.dimension.value)
      let (us, next) ← numberUnits n us
      return ({ u with family := some f } :: us, next)

/-- The family of the unit of a scale. -/
def unitFamily? (units : List UnitEntry) (s : ScaleEntry) : Option FamilyId := do
  (← units[← s.unit]?).family

/-- The points of reference, each over a family of units, of the scales that have a family. -/
def scaleFamilies (units : List UnitEntry) (scales : List ScaleEntry) :
    List ((String × FamilyId) × FamilyId) :=
  scales.filterMap fun s => do
    if !s.valid then none
    else
      let f ← s.family
      let point ← s.refPoint
      let unitFamily ← unitFamily? units s
      some ((point, unitFamily), f)

/-- Give every valid scale a family: that of its point of reference and unit, or one of its
own if it has no point of reference. -/
def numberScales (units : List UnitEntry) (n : Numbering (String × FamilyId)) :
    List ScaleEntry → Option (List ScaleEntry)
  | [] => some []
  | s :: ss =>
    match s.valid && s.family.isNone, unitFamily? units s with
    | true, some unitFamily => do
      let (f, n) ← (match s.refPoint with
        | some point => n.number (point, unitFamily)
        | none => n.fresh)
      return { s with family := some f } :: (← numberScales units n ss)
    | _, _ => return s :: (← numberScales units n ss)

/-! ### Members -/

def members {α : Type} (family : α → Option FamilyId) (xs : List α) (f : FamilyId) : List Nat :=
  places xs fun x => family x = some f

def validFamily (u : UnitEntry) : Option FamilyId := if u.valid then u.family else none

def validScaleFamily (s : ScaleEntry) : Option FamilyId := if s.valid then s.family else none

/-- The factor of a unit in terms of the prime of its family. -/
def relativeFactor (u prime : UnitEntry) : Except NumeralError NumeralExpr := do
  let base ← u.kind.convert prime.factor.value
  let value ← u.factor.value.div base
  let code := if u.kind = prime.kind then u.name ++ "::FACTOR / " ++ prime.name ++ "::FACTOR"
    else value.literal
  return ⟨u.factor.constant && prime.factor.constant, value, code⟩

/-- The relative factor of the unit at a place of a family, unless it is the prime. -/
def relativeFactorAt? (units : List UnitEntry) (family : List Nat) (i : Nat) :
    Option (Except NumeralError NumeralExpr) := do
  let first ← family.head?
  let u ← units[i]?
  let prime ← units[first]?
  if i = first then none else some (relativeFactor u prime)

/-- The first member of a family, unless it is the one at hand. -/
def primeOf? (family : List Nat) (i : Nat) : Option Nat := family.head?.filter (· ≠ i)

def linkUnit (units : List UnitEntry) (u : UnitEntry) (i : Nat) : UnitEntry :=
  match validFamily u with
  | none => u
  | some f =>
    let family := members validFamily units f
    { u with
      prime := primeOf? family i
      relatives := family.filter (· ≠ i)
      relativeFactor := (relativeFactorAt? units family i).bind (·.toOption) }

def linkScale (scales : List ScaleEntry) (s : ScaleEntry) (i : Nat) : ScaleEntry :=
  match validScaleFamily s with
  | none => s
  | some f =>
    let family := members validScaleFamily scales f
    { s with prime := primeOf? family i, relatives := family.filter (· ≠ i) }

def insertId (f : FamilyId) : List FamilyId → List FamilyId
  | [] => [f]
  | g :: gs => if f < g then f :: g :: gs else if f = g then g :: gs else g :: insertId f gs

/-- The ids in a list, each once, in ascending order. -/
def sortedIds (ids : List FamilyId) : List FamilyId := ids.foldr insertId []

/-- What is wrong with the relation of the unit at a place to its prime. -/
def relationError? (units : List UnitEntry) (family : List Nat) (i : Nat) : Option Diagnostic := do
  match ← relativeFactorAt? units family i with
  | .ok _ => none
  | .error e =>
    let u ← units[i]?
    let prime ← units[← family.head?]?
    some
      { stage := .semantic
        span := u.origin.span?
        message := "Cannot relate '" ++ u.name ++ "' to '" ++ prime.name ++ "': " ++ e.message }

/-- The units that cannot be related to their prime, family by family. -/
def relationErrors (units : List UnitEntry) : List Diagnostic :=
  (sortedIds (units.filterMap validFamily)).flatMap fun f =>
    let family := members validFamily units f
    family.filterMap (relationError? units family)

/-- The first number for new families: none that is in use, nor one before `firstFamily`. -/
def firstNumber? (firstFamily : FamilyId) (m : Model) : Option FamilyId :=
  match m.maxFamily? with
  | some largest => do
    let next ← largest.next?
    return max firstFamily next
  | none => some firstFamily

/-- Number the families of a model and connect their members, if there are numbers for all. -/
def resolveFamilies (firstFamily : FamilyId) (m : Model) (ds : Diagnostics) :
    Option (Model × Diagnostics) := do
  let next ← firstNumber? firstFamily m
  let (units, next) ← numberUnits ⟨unitFamilies m.units, next⟩ m.units
  let scales ← numberScales units ⟨scaleFamilies units m.scales, next⟩ m.scales
  return ({ m with
      units := units.mapIdx fun i u => linkUnit units u i
      scales := scales.mapIdx fun i s => linkScale scales s i },
    ds.pushAll (relationErrors units))

end Quantity.Model
