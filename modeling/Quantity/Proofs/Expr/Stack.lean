import Quantity.Proofs.Expr.Encoding

/-!
# Expressions on a stack of operands

The meaning of an expression can be computed on a stack: a leaf is pushed, an operation takes its
operands from the stack and pushes its result. Such a computation can go wrong in two ways of its
own, if an operand is missing or if some are left over. `finish_visitDimension` and
`finish_visitValue` say that neither happens for any expression: each visit leaves one more
operand, and it is the meaning of the expression.
-/

namespace Quantity

/-- What goes wrong in a computation on a stack. -/
inductive StackError where
  /-- An operand is missing. -/
  | underflow
  /-- Some operands are left over. -/
  | leftOver (count : Nat)
  /-- The expression has no meaning. -/
  | encoding (cause : EncodeError)
  deriving DecidableEq

namespace Stack

variable {α : Type}

/-- Push a result, unless there is none. -/
def push (stack : List α) (x : Except EncodeError α) : Except StackError (List α) :=
  (x.mapError .encoding).map (· :: stack)

def change (f : α → α) : List α → Except StackError (List α)
  | a :: stack => .ok (f a :: stack)
  | [] => .error .underflow

/-- Combine the two operands on top; the right one was pushed last. -/
def combine (f : α → α → Except EncodeError α) : List α → Except StackError (List α)
  | b :: a :: stack => push stack (f a b)
  | _ => .error .underflow

def finish : List α → Except StackError α
  | [] => .error .underflow
  | [a] => .ok a
  | _ :: stack => .error (.leftOver stack.length)

theorem push_bind_change (stack : List α) (x : Except EncodeError α) (f : α → α) :
    (push stack x >>= change f) = push stack (x >>= fun a => pure (f a)) := by
  cases x with
  | error e => rfl
  | ok a => rfl

theorem push_bind_combine (stack : List α) (x y : Except EncodeError α)
    (f : α → α → Except EncodeError α) :
    (push stack x >>= fun stack => push stack y >>= combine f) =
      push stack (x >>= fun a => y >>= fun b => f a b) := by
  cases x with
  | error e => rfl
  | ok a =>
    cases y with
    | error e => rfl
    | ok b => rfl

theorem push_bind_finish (x : Except EncodeError α) :
    (push [] x >>= finish) = x.mapError .encoding := by
  cases x with
  | error e => rfl
  | ok a => rfl

end Stack

namespace Expr

open Stack

/-! ### Dimension -/

/-- Visit an expression, with its dimension pushed in the end. -/
def visitDimension (lookup : String → Lookup) :
    Expr → List DimensionExpr → Except StackError (List DimensionExpr)
  | number _ _, stack | literal _ _, stack | magnitude none _, stack => push stack (.ok .plain)
  | magnitude (some m) _, stack => push stack (.ok ⟨.basic m, "Dimension::" ++ m.constantName⟩)
  | reference name span, stack => push stack do
    let unit ← (lookup name).resolve name span
    return ⟨unit.dimension, unit.name ++ "::DIMENSION"⟩
  | signed _ e, stack => visitDimension lookup e stack
  | paren e, stack =>
    visitDimension lookup e stack >>= change fun d => { d with code := Code.parenthesize d.code }
  | arith op l r, stack =>
    match op with
    | .product => do
      let stack ← visitDimension lookup l stack
      let stack ← visitDimension lookup r stack
      combine (dimensionProduct (l.span.upTo r.span)) stack
    | .quotient => do
      let stack ← visitDimension lookup l stack
      let stack ← visitDimension lookup r stack
      combine (dimensionQuotient (l.span.upTo r.span)) stack
    | .sum | .difference => push stack (.error (.addsDimensions (arith op l r).text))

/-- **A visit pushes the dimension of the expression** and leaves the rest of the stack alone. -/
theorem visitDimension_eq (lookup : String → Lookup) (e : Expr) (stack : List DimensionExpr) :
    visitDimension lookup e stack = push stack (e.encodeDimension lookup) := by
  induction e generalizing stack with
  | number _ _ => rfl
  | literal _ _ => rfl
  | magnitude m _ => cases m <;> rfl
  | reference name span => rfl
  | signed _ e ih => exact ih stack
  | paren e ih =>
    rw [visitDimension, ih]
    exact push_bind_change ..
  | arith op l r ihl ihr =>
    cases op with
    | product =>
      simp only [visitDimension, ihl, ihr]
      exact push_bind_combine ..
    | quotient =>
      simp only [visitDimension, ihl, ihr]
      exact push_bind_combine ..
    | sum => rfl
    | difference => rfl

/-- **No operand is missing and none is left over** when a dimension is computed on a stack. -/
theorem finish_visitDimension (lookup : String → Lookup) (e : Expr) :
    (visitDimension lookup e [] >>= finish) = (e.encodeDimension lookup).mapError .encoding := by
  rw [visitDimension_eq]
  exact push_bind_finish _

/-! ### Value -/

/-- Visit an expression, with its value pushed in the end. -/
def visitValue (lookup : String → Lookup) (kind : NumericKind) :
    Expr → List NumeralExpr → Except StackError (List NumeralExpr)
  | number text span, stack => push stack
    (match kind.parse text with
    | .ok n => .ok (.ofNumeral n)
    | .error e => .error (.numeral e span))
  | literal name _, stack => push stack (.ok (literalValue kind name))
  | magnitude _ _, stack => push stack (.ok (.ofNumeral kind.one))
  | reference name span, stack => push stack do
    let unit ← (lookup name).resolve name span
    if unit.kind = kind then
      return ⟨unit.constant, unit.factor, unit.name ++ "::FACTOR"⟩
    else throw (.kindMismatch name span kind unit.kind)
  | signed negative e, stack =>
    visitValue lookup kind e stack >>= change fun n =>
      if negative then ⟨n.constant, n.value.neg, "-" ++ n.code⟩ else n
  | paren e, stack =>
    visitValue lookup kind e stack >>= change fun n => { n with code := Code.parenthesize n.code }
  | arith op l r, stack => do
    let stack ← visitValue lookup kind l stack
    let stack ← visitValue lookup kind r stack
    combine (combineValues op (l.span.upTo r.span)) stack

/-- **A visit pushes the value of the expression** and leaves the rest of the stack alone. -/
theorem visitValue_eq (lookup : String → Lookup) (kind : NumericKind) (e : Expr)
    (stack : List NumeralExpr) :
    visitValue lookup kind e stack = push stack (e.encodeValue lookup kind) := by
  induction e generalizing stack with
  | number _ _ => rfl
  | literal _ _ => rfl
  | magnitude _ _ => rfl
  | reference _ _ => rfl
  | signed _ e ih =>
    rw [visitValue, ih]
    exact push_bind_change ..
  | paren e ih =>
    rw [visitValue, ih]
    exact push_bind_change ..
  | arith op l r ihl ihr =>
    simp only [visitValue, ihl, ihr]
    exact push_bind_combine ..

/-- **No operand is missing and none is left over** when a value is computed on a stack. -/
theorem finish_visitValue (lookup : String → Lookup) (kind : NumericKind) (e : Expr) :
    (visitValue lookup kind e [] >>= finish) = (e.encodeValue lookup kind).mapError .encoding := by
  rw [visitValue_eq]
  exact push_bind_finish _

/-- Values can be added, so no value fails because dimensions cannot. -/
theorem encodeValue_ne_addsDimensions (lookup : String → Lookup) (kind : NumericKind) (e : Expr)
    (text : String) : e.encodeValue lookup kind ≠ .error (.addsDimensions text) := by
  intro h
  replace h := blames_of_encodeValue h
  generalize herr : EncodeError.addsDimensions text = err at h
  induction h with
  | @name name span err h =>
    subst herr
    unfold Lookup.resolve at h
    split at h <;> cases h
  | kind | numeral | dimension => cases herr
  | sum hs => exact hs
  | signed _ ih | paren _ ih | left _ ih | right _ ih => exact ih herr

end Expr

end Quantity
