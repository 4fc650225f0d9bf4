import Quantity.Proofs.Expr.Encoding

/-!
# Kinds of numerals

Numerals of different kinds do not combine, and every way to make a numeral of a kind checks that it
is a finite number of that kind. So the value of an expression in a kind is of that kind
(`kind_of_encodeValue`), as long as the units it refers to have factors of their own kinds.
-/

namespace Quantity

open Quantity.Number

/-! ### Numerals -/

namespace Numeral

/-- The numeral is a finite number of a kind. -/
def IsOf (n : Numeral) (kind : NumericKind) : Prop := n.kind = kind ∧ n.isFinite = true

theorem isOf_of_finite {n n' : Numeral} (h : n.finite = .ok n') : n'.IsOf n.kind := by
  unfold finite at h
  split_ifs at h with hfinite
  cases h
  exact ⟨rfl, hfinite⟩

theorem isOf_of_ofDecimal? (h : ofDecimal? v = .ok n) : n.IsOf .decimal := by
  cases v with
  | none => cases h
  | some v =>
    cases h
    exact ⟨rfl, rfl⟩

/-- Numerals that combine, finite or not, are of one kind, and the result is a finite number of it. -/
theorem isOf_of_combine (h : combine onDouble onFloat onDecimal a b = .ok n) :
    n.IsOf a.kind ∧ n.kind = b.kind := by
  unfold combine at h
  split at h
  · have hn := isOf_of_finite h
    exact ⟨hn, hn.1⟩
  · have hn := isOf_of_finite h
    exact ⟨hn, hn.1⟩
  · have hn := isOf_of_ofDecimal? h
    exact ⟨hn, hn.1⟩
  · cases h

@[simp] theorem kind_neg (n : Numeral) : n.neg.kind = n.kind := by
  cases n <;> rfl

end Numeral

theorem Arith.isOf_of_apply {op : Arith} {a b n : Numeral} (h : op.apply a b = .ok n) :
    n.IsOf a.kind ∧ n.kind = b.kind := by
  cases op with
  | product => exact Numeral.isOf_of_combine h
  | sum => exact Numeral.isOf_of_combine h
  | difference => exact Numeral.isOf_of_combine h
  | quotient =>
    have hdiv : a.div b = .ok n := h
    unfold Numeral.div at hdiv
    split_ifs at hdiv
    exact Numeral.isOf_of_combine hdiv

namespace NumericKind

theorem isOf_one (k : NumericKind) : k.one.IsOf k := by
  cases k <;> exact ⟨rfl, rfl⟩

theorem isOf_of_parse {n : Numeral} (h : k.parse text = .ok n) : n.IsOf k := by
  unfold parse at h
  cases k with
  | decimal =>
    dsimp only at h
    split at h
    · cases h
      exact ⟨rfl, rfl⟩
    · cases h
  | double =>
    simp only [if_true] at h
    split_ifs at h
    split at h
    · cases h
    · exact Numeral.isOf_of_finite h
  | float =>
    simp only [reduceCtorEq, if_false] at h
    split_ifs at h
    split at h
    · cases h
    · exact Numeral.isOf_of_finite h

end NumericKind

theorem NamedConstant.isOf_value (c : NamedConstant) (k : NumericKind) : (c.value k).IsOf k := by
  cases c <;> cases k <;> exact ⟨rfl, rfl⟩

/-! ### Expressions -/

namespace Expr

variable {lookup : String → Lookup} {kind : NumericKind}

theorem isOf_literalValue (kind : NumericKind) (name : String) :
    (literalValue kind name).value.IsOf kind := by
  unfold literalValue
  split
  · exact NamedConstant.isOf_value _ kind
  · rename_i hparse
    exact NumericKind.isOf_of_parse hparse
  · exact NumericKind.isOf_one kind

/-- **The value of an expression in a kind is of that kind**, if the factors of the units it refers
to are of theirs. -/
theorem kind_of_encodeValue {e : Expr}
    (hlookup : ∀ name ∈ e.references, ∀ u, lookup name = .resolved u → u.factor.kind = u.kind)
    (h : e.encodeValue lookup kind = .ok n) : n.value.kind = kind := by
  replace h := hasValue_of_encodeValue h
  induction h with
  | number hparse => exact (NumericKind.isOf_of_parse hparse).1
  | @literal name _ => exact (isOf_literalValue kind name).1
  | magnitude => exact kind.isOf_one.1
  | reference hu hkind => exact (hlookup _ (List.mem_singleton_self _) _ hu).trans hkind
  | positive _ ih | paren _ ih => exact ih hlookup
  | negative _ ih => exact (Numeral.kind_neg _).trans (ih hlookup)
  | arith _ _ hop ihl _ =>
    exact (Arith.isOf_of_apply hop).1.1.trans
      (ihl fun name hn => hlookup name (List.mem_append_left _ hn))

end Expr

end Quantity
