import Quantity.Proofs.Expr.Kinds
import Quantity.Proofs.Number.Binary

/-!
# Finite values

Arithmetic checks that each result is finite, and so does reading a numeral. Negation does not, but
changes the sign only. So the value of an expression in a kind is a finite number of that kind
(`isOf_encodeValue`), as long as the factors of the units it refers to are finite numbers of theirs.
-/

namespace Quantity

open Quantity.Number

theorem Numeral.isFinite_neg {n : Numeral} (h : n.isFinite = true) : n.neg.isFinite = true := by
  cases n with
  | double v => exact isFinite_float_neg h
  | float v => exact isFinite_float32_neg h
  | decimal v => rfl

namespace Expr

variable {lookup : String → Lookup} {kind : NumericKind}

theorem isFinite_of_encodeValue {e : Expr}
    (hlookup : ∀ name u, lookup name = .resolved u → u.factor.isFinite = true)
    (h : e.encodeValue lookup kind = .ok n) : n.value.isFinite = true := by
  replace h := hasValue_of_encodeValue h
  induction h with
  | number hparse => exact (NumericKind.isOf_of_parse hparse).2
  | @literal name _ => exact (isOf_literalValue kind name).2
  | magnitude => exact kind.isOf_one.2
  | reference hu _ => exact hlookup _ _ hu
  | positive _ ih | paren _ ih => exact ih
  | negative _ ih => exact Numeral.isFinite_neg ih
  | arith _ _ hop _ _ => exact (Arith.isOf_of_apply hop).1.2

/-- **The value of an expression in a kind is a finite number of that kind**, if the factors of
units are of theirs. -/
theorem isOf_encodeValue {e : Expr}
    (hlookup : ∀ name u, lookup name = .resolved u → u.factor.IsOf u.kind)
    (h : e.encodeValue lookup kind = .ok n) : n.value.IsOf kind :=
  ⟨kind_of_encodeValue (fun name _ u hu => (hlookup name u hu).1) h,
    isFinite_of_encodeValue (fun name u hu => (hlookup name u hu).2) h⟩

end Expr

end Quantity
