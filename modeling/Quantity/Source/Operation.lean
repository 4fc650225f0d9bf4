import Quantity.Source.Config
import Quantity.Source.Name
import Quantity.View.Basic

/-!
# The source of operations

An operation is implemented in the file of its left unit, or of its right one if the left one
is not generated here. An operation between units of other modules becomes a free function.
The numbers are multiplied or divided, and scaled if the factors do not agree with the factor
of the result.
-/

namespace Quantity.Source

/-- Why an operation cannot be generated. -/
inductive OperationError where
  | unknownUnit (name : String)
  /-- Neither side is a known unit. -/
  | noUnitOperand (operation : OperationView)
  /-- The factors cannot be combined. -/
  | notScalable (operation : OperationView) (cause : NumeralError)
  deriving DecidableEq, Repr

/-- The message, and those of its causes. -/
def OperationError.chain : OperationError → List String
  | unknownUnit name => ["Unknown unit '" ++ name ++ "'"]
  | noUnitOperand o => ["Operation " ++ o.text ++ " has no unit operand"]
  | notScalable o cause => ["Cannot scale the result of " ++ o.text, cause.message]

/-- Whether the file of the operand's unit is generated. -/
def isGenerated (v : View) (o : OperandView) : Bool :=
  o.module.isNone && (v.operandUnit? o).any (·.valid)

/-- The unit in whose file the operation is implemented; none for a free function. -/
def host? (v : View) (o : OperationView) : Option String :=
  (o.sides.find? (isGenerated v)).map (·.name)

/-- The type of an operand. -/
def operandType (o : OperandView) : String :=
  if o.number then o.name else pathIn o.module o.name

/-- The factor of an operand; a plain number has the factor one. -/
def operandFactor (v : View) (one : Numeral) (o : OperandView) :
    Except OperationError Numeral :=
  if o.number then .ok one
  else match v.operandUnit? o with
    | some u => .ok u.factor.value
    | none => .error (.unknownUnit o.name)

/-- Combine two factors and divide by the factor of the result. -/
def combineFactors (operator : Operator) (lhs rhs result : Numeral) :
    Except NumeralError Numeral := do
  let combined ← match operator with
    | .product => lhs.mul rhs
    | .quotient => lhs.div rhs
  combined.div result

/-- The relative tolerance within which a ratio is one. -/
def ratioTolerance : Float := 1e-12

/-- The number by which the result has to be scaled, if it is not one. -/
def scaling? (v : View) (o : OperationView) : Except OperationError (Option Numeral) := do
  let some unit := o.sides.findSome? v.operandUnit? | throw (.noUnitOperand o)
  let one := unit.kind.one
  let lhs ← operandFactor v one o.lhs
  let rhs ← operandFactor v one o.rhs
  let result ← operandFactor v one o.result
  match combineFactors o.operator lhs rhs result with
  | .ok ratio => return if ratio.approxEq one ratioTolerance then none else some ratio
  | .error e => throw (.notScalable o e)

/-- The number of an operand. -/
def operandNumber (o : OperandView) (name : String) : String :=
  if o.number then name else name ++ ".0"

/-- The value of an operation on two operands. -/
def operationValue (v : View) (o : OperationView) (lhs rhs : String) :
    Except OperationError String := do
  let plain := operandNumber o.lhs lhs ++ " " ++ o.operator.symbol ++ " "
    ++ operandNumber o.rhs rhs
  let scaled := match ← scaling? v o with
    | some ratio => plain ++ " * " ++ ratio.literal
    | none => plain
  return if o.result.number then scaled else operandType o.result ++ "(" ++ scaled ++ ")"

/-- The trait that an operator stands for. -/
def operatorTrait : Operator → OperatorTrait
  | .product => .mul
  | .quotient => .div

/-- The implementation of an operation in the file of its host. -/
def operationImpl (v : View) (o : OperationView) : Except OperationError OperatorImpl := do
  let body ← operationValue v o "self" "rhs"
  return { operator := operatorTrait o.operator
           type := operandType o.lhs
           argument := some (operandType o.rhs)
           output := operandType o.result
           body := [body] }

/-! ### Free functions -/

/-- An operation as a function. -/
structure FreeFunction where
  name : String
  operation : OperationView
  body : String
  deriving DecidableEq, Repr

/-- The words of the sides, with the operator between them. -/
def functionName (o : OperationView) : String :=
  Text.snakeCase o.lhs.name ++ "_" ++ (operatorTrait o.operator).method ++ "_"
    ++ Text.snakeCase o.rhs.name

/-- The function for an operation without a host. -/
def freeFunction (v : View) (o : OperationView) : Except OperationError FreeFunction := do
  return ⟨functionName o, o, ← operationValue v o "lhs" "rhs"⟩

/-- The lines of a function. -/
def FreeFunction.lines (c : Config) (f : FreeFunction) : Lines :=
  onlyIf c.docs ["/// " ++ codeSpan f.operation.text]
    ++ block ("pub fn " ++ identifier f.name ++ "(lhs: " ++ operandType f.operation.lhs
        ++ ", rhs: " ++ operandType f.operation.rhs ++ ") -> "
        ++ operandType f.operation.result)
      [f.body]

/-- The operations without a host. -/
def freeOperations (v : View) : List OperationView :=
  v.operations.filter fun o => (host? v o).isNone

/-- The file of the free functions. -/
def operationsFile (c : Config) (functions : List FreeFunction) : Lines :=
  ["//! Operations between units of other modules", "", "#[allow(unused_imports)]",
      "use super::*;"]
    ++ functions.flatMap fun f => apart (f.lines c)

end Quantity.Source
