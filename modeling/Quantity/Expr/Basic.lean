import Quantity.Dimension
import Quantity.Span

/-!
# Expressions

What stands on the right of a declaration: numbers, named values, magnitudes and units,
combined by the four operations, signs and parentheses.
-/

namespace Quantity

/-- The four operations. -/
inductive Arith where
  | product
  | quotient
  | sum
  | difference
  deriving DecidableEq, Repr

def Arith.symbol : Arith → String
  | product => "*"
  | quotient => "/"
  | sum => "+"
  | difference => "-"

/-- An expression of a declaration. -/
inductive Expr where
  /-- A number as it is written. -/
  | number (text : String) (span : Span)
  /-- A named constant or a text in quotes. -/
  | literal (name : String) (span : Span)
  /-- The unit of a magnitude, or of plain numbers. -/
  | magnitude (magnitude : Option Magnitude) (span : Span)
  /-- A unit. -/
  | reference (name : String) (span : Span)
  | signed (negative : Bool) (operand : Expr)
  | paren (inner : Expr)
  | arith (op : Arith) (lhs rhs : Expr)
  deriving DecidableEq, Repr, Inhabited

namespace Expr

/-- The place of an expression, from its first leaf to its last. -/
def span : Expr → Span
  | number _ s | literal _ s | magnitude _ s | reference _ s => s
  | signed _ e | paren e => e.span
  | arith _ l r => l.span.upTo r.span

/-- The units an expression refers to, from left to right. -/
def references : Expr → List String
  | number _ _ | literal _ _ | magnitude _ _ => []
  | reference name _ => [name]
  | signed _ e | paren e => e.references
  | arith _ l r => l.references ++ r.references

def text : Expr → String
  | number text _ => text
  | literal name _ => "\"" ++ name ++ "\""
  | magnitude (some m) _ => "<" ++ m.name ++ ">"
  | magnitude none _ => "<>"
  | reference name _ => name
  | signed negative e => (if negative then "-" else "+") ++ e.text
  | paren e => "(" ++ e.text ++ ")"
  | arith op l r => l.text ++ " " ++ op.symbol ++ " " ++ r.text

end Expr

end Quantity
