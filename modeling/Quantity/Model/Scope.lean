import Quantity.Diagnostic
import Quantity.Model.Basic

/-!
# Names in scope

While declarations are given their meaning, every unit is pending, done or failed, and names
and tags lead to the units that claimed them last.
-/

namespace Quantity

/-- A table in which the last entry of a key counts. -/
structure Table where
  entries : List (String × Nat) := []
  deriving DecidableEq, Repr

namespace Table

def get? (t : Table) (key : String) : Option Nat := (t.entries.find? fun e => e.1 = key).map (·.2)

def insert (t : Table) (key : String) (value : Nat) : Table := ⟨(key, value) :: t.entries⟩

def map (t : Table) (f : Nat → Nat) : Table := ⟨t.entries.map fun (key, value) => (key, f value)⟩

@[simp] theorem get?_insert (t : Table) (key other : String) (value : Nat) :
    (t.insert key value).get? other = if key = other then some value else t.get? other := by
  unfold get? insert
  by_cases h : key = other <;> simp [h]

end Table

/-- How far a unit has come. -/
inductive UnitState where
  | pending
  | done
  /-- The declaration has no meaning, for the reason given. -/
  | failed (why : Diagnostic)
  deriving DecidableEq, Repr

/-- The units so far, how far they have come, and the names that lead to them. -/
structure Scope where
  units : List UnitEntry
  states : List UnitState
  names : Table
  deriving DecidableEq

namespace Scope

def state (s : Scope) (i : Nat) : UnitState := s.states.getD i .pending

def cause? (s : Scope) (name : String) : Option Diagnostic := do
  match s.state (← s.names.get? name) with
  | .failed why => some why
  | _ => none

def lookup (s : Scope) (name : String) : Lookup :=
  match s.names.get? name with
  | none => .unknown
  | some i =>
    match s.state i, s.units[i]? with
    | .done, some u => .resolved u.summary
    | .failed _, _ => .invalid
    | _, _ => .pending

end Scope

end Quantity
