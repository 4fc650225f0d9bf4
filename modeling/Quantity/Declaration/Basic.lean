import Quantity.Expr.Basic
import Quantity.Numeral

/-!
# Declarations

A definitions text declares units and scales. A unit has a name, at least one symbol and a
definition, and may have further definitions of the same dimension. A scale counts from an
offset in some unit, and may name the point that its offset is measured from.
-/

namespace Quantity

/-- The declaration of a unit. -/
structure UnitDecl where
  name : String
  span : Span
  /-- The kind of its numbers, if given. -/
  kind : Option NumericKind
  tags : List String
  format : Option String
  definition : Expr
  /-- Further definitions, which must have the same dimension. -/
  alternatives : List Expr
  deriving DecidableEq, Repr

/-- The declaration of a scale. -/
structure ScaleDecl where
  name : String
  span : Span
  format : Option String
  /-- The point that scales of one family have in common. -/
  refPoint : Option String
  unit : String
  unitSpan : Span
  offset : Expr
  deriving DecidableEq, Repr

/-- The declarations of a text. -/
structure Declarations where
  units : List UnitDecl := []
  scales : List ScaleDecl := []
  deriving DecidableEq, Repr

end Quantity
