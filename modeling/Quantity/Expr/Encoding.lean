import Quantity.Expr.Basic
import Quantity.Expr.Code
import Quantity.Numeral

/-!
# Dimension and value of expressions

An expression is given its meaning twice: as a dimension and as a numeral of one kind. Both
meanings are computed from the leaves up, with the units it refers to looked up by name, and
both come with the code that computes them in generated source.
-/

namespace Quantity

/-- A dimension and the code for it. -/
structure DimensionExpr where
  value : Dimension
  code : String
  deriving DecidableEq, Repr

def DimensionExpr.plain : DimensionExpr := ⟨.none, "Dimension::NONE"⟩

/-- A numeral and the code for it. -/
structure NumeralExpr where
  /-- Whether the value is known and not just a stand-in for a symbolic literal. -/
  constant : Bool
  value : Numeral
  code : String
  deriving DecidableEq

def NumeralExpr.ofNumeral (n : Numeral) : NumeralExpr := ⟨true, n, n.literal⟩

/-- Why an expression has no meaning. -/
inductive EncodeError where
  /-- The meaning of the unit is not known yet. -/
  | pending (name : String) (span : Span)
  /-- There is no unit of the name. -/
  | unresolved (name : String) (span : Span)
  /-- The unit has no meaning itself. -/
  | invalidReference (name : String) (span : Span)
  /-- The numbers of the unit are of another kind. -/
  | kindMismatch (name : String) (span : Span) (expected found : NumericKind)
  | numeral (cause : NumeralError) (span : Span)
  | dimension (cause : DimensionError) (span : Span)
  /-- Dimensions cannot be added; no declaration can say so. -/
  | addsDimensions (text : String)
  deriving DecidableEq, Repr

namespace EncodeError

def message : EncodeError → String
  | pending name _ | unresolved name _ => "Unresolved reference '" ++ name ++ "'"
  | invalidReference name _ => "Reference to invalid unit '" ++ name ++ "'"
  | kindMismatch name _ expected found =>
    "Unit '" ++ name ++ "' is " ++ found.keyword ++ ", expected " ++ expected.keyword
  | numeral cause _ => cause.message
  | dimension cause _ => cause.message
  | addsDimensions text =>
    "Internal error: '" ++ text
      ++ "' adds or subtracts dimensions, which no declaration can express"

def span : EncodeError → Option Span
  | pending _ s | unresolved _ s | invalidReference _ s | kindMismatch _ s _ _ | numeral _ s
  | dimension _ s => some s
  | addsDimensions _ => none

end EncodeError

/-- What an expression needs to know of a unit it refers to. -/
structure UnitSummary where
  name : String
  kind : NumericKind
  dimension : Dimension
  factor : Numeral
  /-- Whether the factor is a known value. -/
  constant : Bool
  deriving DecidableEq

/-- What is known under a name. -/
inductive Lookup where
  | resolved (unit : UnitSummary)
  /-- A unit whose meaning is not known yet. -/
  | pending
  /-- A unit without meaning. -/
  | invalid
  | unknown
  deriving DecidableEq

/-- The unit found under a name, or the reason why there is none. -/
def Lookup.resolve (l : Lookup) (name : String) (span : Span) :
    Except EncodeError UnitSummary :=
  match l with
  | resolved unit => .ok unit
  | pending => .error (.pending name span)
  | invalid => .error (.invalidReference name span)
  | unknown => .error (.unresolved name span)

def Arith.apply : Arith → Numeral → Numeral → Except NumeralError Numeral
  | .product => Numeral.mul
  | .quotient => Numeral.div
  | .sum => Numeral.add
  | .difference => Numeral.sub

namespace Expr

/-! ### Dimension -/

/-- The dimension of a product; a factor without dimension leaves no trace in the code. -/
def dimensionProduct (span : Span) (l r : DimensionExpr) : Except EncodeError DimensionExpr :=
  if l.value.isNone then .ok r
  else if r.value.isNone then .ok l
  else match l.value.mul r.value with
    | .ok d => .ok ⟨d, l.code ++ " * " ++ r.code⟩
    | .error e => .error (.dimension e span)

def dimensionQuotient (span : Span) (l r : DimensionExpr) : Except EncodeError DimensionExpr :=
  if r.value.isNone then .ok l
  else match l.value.div r.value with
    | .ok d => .ok ⟨d, l.code ++ " / " ++ r.code⟩
    | .error e => .error (.dimension e span)

def encodeDimension (lookup : String → Lookup) : Expr → Except EncodeError DimensionExpr
  | number _ _ | literal _ _ | magnitude none _ => .ok .plain
  | magnitude (some m) _ => .ok ⟨.basic m, "Dimension::" ++ m.constantName⟩
  | reference name span => do
    let unit ← (lookup name).resolve name span
    return ⟨unit.dimension, unit.name ++ "::DIMENSION"⟩
  | signed _ e => encodeDimension lookup e
  | paren e => do
    let d ← encodeDimension lookup e
    return { d with code := Code.parenthesize d.code }
  | arith op l r =>
    match op with
    | .product => do
      let a ← encodeDimension lookup l
      let b ← encodeDimension lookup r
      dimensionProduct (l.span.upTo r.span) a b
    | .quotient => do
      let a ← encodeDimension lookup l
      let b ← encodeDimension lookup r
      dimensionQuotient (l.span.upTo r.span) a b
    | .sum | .difference => .error (.addsDimensions (arith op l r).text)

/-! ### Value -/

/-- The value of a named literal: a constant, a number, or one as a stand-in for a name that
is known only where the generated source is used. -/
def literalValue (kind : NumericKind) (name : String) : NumeralExpr :=
  match NamedConstant.ofName? name, kind.parse name with
  | some c, _ => ⟨true, c.value kind, c.code kind⟩
  | none, .ok n => .ofNumeral n
  | none, .error _ => ⟨false, kind.one, name⟩

def combineValues (op : Arith) (span : Span) (l r : NumeralExpr) :
    Except EncodeError NumeralExpr :=
  match op.apply l.value r.value with
  | .ok n => .ok ⟨l.constant && r.constant, n, l.code ++ " " ++ op.symbol ++ " " ++ r.code⟩
  | .error e => .error (.numeral e span)

def encodeValue (lookup : String → Lookup) (kind : NumericKind) :
    Expr → Except EncodeError NumeralExpr
  | number text span =>
    match kind.parse text with
    | .ok n => .ok (.ofNumeral n)
    | .error e => .error (.numeral e span)
  | literal name _ => .ok (literalValue kind name)
  | magnitude _ _ => .ok (.ofNumeral kind.one)
  | reference name span => do
    let unit ← (lookup name).resolve name span
    if unit.kind = kind then
      return ⟨unit.constant, unit.factor, unit.name ++ "::FACTOR"⟩
    else throw (.kindMismatch name span kind unit.kind)
  | signed negative e => do
    let n ← encodeValue lookup kind e
    return if negative then ⟨n.constant, n.value.neg, "-" ++ n.code⟩ else n
  | paren e => do
    let n ← encodeValue lookup kind e
    return { n with code := Code.parenthesize n.code }
  | arith op l r => do
    let a ← encodeValue lookup kind l
    let b ← encodeValue lookup kind r
    combineValues op (l.span.upTo r.span) a b

end Expr

end Quantity
