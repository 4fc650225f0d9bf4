import Quantity.Declaration.Parser

/-!
# Definitions of units are products

The grammar lets a unit be defined by products and quotients only: no definition of a unit, and no
further definition, adds, subtracts or has a sign. So giving a declaration its meaning never comes
upon a sum of dimensions.
-/

namespace Quantity

/-- An expression as the definition of a unit can be: without sums, differences and signs. -/
def Expr.IsProduct : Expr → Prop
  | .number _ _ | .literal _ _ | .magnitude _ _ | .reference _ _ => True
  | .signed _ _ => False
  | .paren e => e.IsProduct
  | .arith op l r => (op = .product ∨ op = .quotient) ∧ l.IsProduct ∧ r.IsProduct

/-- The definitions of a declared unit, the first one and the others. -/
def UnitDecl.definitions (d : UnitDecl) : List Expr := d.definition :: d.alternatives

/-- All definitions of the unit are products. -/
def UnitDecl.IsProduct (d : UnitDecl) : Prop := ∀ e ∈ d.definitions, e.IsProduct

end Quantity
