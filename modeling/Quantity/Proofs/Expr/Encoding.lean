import Quantity.Expr.Encoding
import Quantity.Proofs.Declaration.Products
import Mathlib.Data.List.Basic
import Mathlib.Data.Option.Defs

/-!
# What an expression depends on

An expression is encoded with the units that are known at the time. Later more units are
known. The results say how the meaning of an expression follows:

* it is put together from the meanings of its parts (`HasDimension`, `HasValue`);
* it depends only on what is known under the names it refers to, and once it does not wait
  for a unit, it stays the same when more becomes known (`encodeDimension_stable`,
  `encodeValue_stable`);
* it has a dimension only if all these names lead to units (`resolved_of_encodeDimension`);
* an error is one of a part of it (`Blames`); if it blames a name, then one that the expression
  refers to, for what is known under it (`Blames.justified`).
-/

namespace Quantity

open List

/-! ### Waiting -/

/-- A computation that ended with an error of a sort. -/
def EndsWith {ε α : Type} (p : ε → Prop) (x : Except ε α) : Prop := ∃ e, x = .error e ∧ p e

/-- The second computation gives what the first one gives, unless the first one waits: it
ends with an error of a sort. -/
def Stable {ε α : Type} (waits : ε → Prop) (x y : Except ε α) : Prop := EndsWith waits x ∨ y = x

section Stable

variable {ε ε' α β : Type} {waits : ε → Prop} {waits' : ε' → Prop}

theorem Stable.refl (x : Except ε α) : Stable waits x x := .inr rfl

theorem Stable.bind (hx : Stable waits x y) (hf : ∀ a, x = .ok a → Stable waits (f a) (g a)) :
    Stable waits (x >>= f) (y >>= g) := by
  rcases hx with ⟨e, rfl, he⟩ | rfl
  · exact .inl ⟨e, rfl, he⟩
  · cases y with
    | error e => exact .inr rfl
    | ok a => exact hf a rfl

theorem Stable.mapError {x y : Except ε α} {f g : ε → ε'} (hx : Stable waits x y)
    (hw : ∀ e, waits e → waits' (f e)) (hf : ∀ e, x = .error e → ¬ waits e → g e = f e) :
    Stable waits' (x.mapError f) (y.mapError g) := by
  rcases hx with ⟨e, rfl, he⟩ | rfl
  · exact .inl ⟨f e, rfl, hw e he⟩
  · cases y with
    | error e =>
      by_cases he : waits e
      · exact .inl ⟨f e, rfl, hw e he⟩
      · exact .inr (congrArg Except.error (hf e rfl he))
    | ok a => exact .inr rfl

theorem Stable.eq_ok (h : Stable waits x y) (hx : x = .ok a) : y = .ok a := by
  rcases h with ⟨e, he, -⟩ | rfl
  · rw [hx] at he
    cases he
  · exact hx

theorem Stable.eq_error (h : Stable waits x y) (hx : x = .error e) (he : ¬ waits e) :
    y = .error e := by
  rcases h with ⟨e', he', hw⟩ | rfl
  · rw [hx] at he'
    cases he'
    exact absurd hw he
  · exact hx

end Stable

/-- From the result of two steps in a row, the result of the first. -/
theorem bind_eq_ok_iff {x : Except ε α} : (x >>= f) = .ok b ↔ ∃ a, x = .ok a ∧ f a = .ok b := by
  cases x with
  | error e => exact ⟨nofun, nofun⟩
  | ok a =>
    constructor
    · exact fun h => ⟨a, rfl, h⟩
    · rintro ⟨_, ha, h⟩
      cases ha
      exact h

/-- An error of two steps in a row is one of the first or one of the second. -/
theorem bind_eq_error_iff {x : Except ε α} :
    (x >>= f) = .error e ↔ x = .error e ∨ ∃ a, x = .ok a ∧ f a = .error e := by
  cases x with
  | error e' =>
    constructor
    · intro h
      cases h
      exact .inl rfl
    · rintro (h | ⟨_, h, -⟩)
      · cases h
        rfl
      · cases h
  | ok a =>
    constructor
    · exact fun h => .inr ⟨a, rfl, h⟩
    · rintro (h | ⟨_, ha, h⟩)
      · cases h
      · cases ha
        exact h

/-- Whether there is a result with a property is found out by computing it. -/
instance decidableExistsOk {ε α : Type} (x : Except ε α) (p : α → Prop) [DecidablePred p] :
    Decidable (∃ a, x = .ok a ∧ p a) :=
  match x with
  | .error _ => .isFalse nofun
  | .ok a => decidable_of_iff (p a) ⟨fun h => ⟨a, rfl, h⟩, fun ⟨_, ha, h⟩ => Except.ok.inj ha ▸ h⟩

/-! ### Errors -/

/-- The error says that a unit is not known yet. -/
def EncodeError.IsPending : EncodeError → Prop
  | .pending _ _ => True
  | _ => False

/-- An error of an expression is justified: a name it blames is one that the expression
refers to, and known as the error says, and dimensions are added only where the expression is
no product. -/
def EncodeError.Justified (lookup : String → Lookup) (e : Expr) : EncodeError → Prop
  | .pending name _ => name ∈ e.references ∧ lookup name = .pending
  | .invalidReference name _ => name ∈ e.references ∧ lookup name = .invalid
  | .unresolved name _ => name ∈ e.references ∧ lookup name = .unknown
  | .addsDimensions _ => ¬ e.IsProduct
  | _ => True

theorem EncodeError.Justified.of_part {lookup : String → Lookup} {err : EncodeError}
    (h : err.Justified lookup part) (hr : part.references ⊆ whole.references)
    (hp : whole.IsProduct → part.IsProduct) : err.Justified lookup whole := by
  cases err with
  | pending _ _ => exact ⟨hr h.1, h.2⟩
  | invalidReference _ _ => exact ⟨hr h.1, h.2⟩
  | unresolved _ _ => exact ⟨hr h.1, h.2⟩
  | addsDimensions _ => exact mt hp h
  | kindMismatch _ _ _ _ => trivial
  | numeral _ _ => trivial
  | dimension _ _ => trivial

theorem Lookup.justified_of_resolve {lookup : String → Lookup} {name : String} {span : Span}
    {err : EncodeError} (h : (lookup name).resolve name span = .error err) :
    err.Justified lookup (.reference name span) := by
  unfold Lookup.resolve at h
  split at h <;> cases h <;> exact ⟨mem_singleton_self _, ‹_›⟩

theorem Lookup.resolve_eq_ok_iff {l : Lookup} {span : Span} :
    l.resolve name span = .ok u ↔ l = .resolved u := by
  unfold Lookup.resolve
  split <;> simp

theorem Lookup.resolve_stable {l l' : Lookup} (h : l = .pending ∨ l' = l) (name : String)
    (span : Span) : Stable EncodeError.IsPending (l.resolve name span) (l'.resolve name span) := by
  rcases h with rfl | rfl
  · exact .inl ⟨_, rfl, trivial⟩
  · exact .refl _

namespace Expr

variable {lookup lookup' : String → Lookup} {kind : NumericKind}

/-- What is known under the names of an expression stays the same when it is not pending. -/
def Agree (lookup lookup' : String → Lookup) (names : List String) : Prop :=
  ∀ name ∈ names, lookup name = .pending ∨ lookup' name = lookup name

theorem Agree.append (h : Agree lookup lookup' (xs ++ ys)) :
    Agree lookup lookup' xs ∧ Agree lookup lookup' ys :=
  ⟨fun name hn => h name (mem_append_left _ hn),
    fun name hn => h name (mem_append_right _ hn)⟩

/-! ### Dimension -/

/-- **A dimension that does not wait for a unit stays the same.** -/
theorem encodeDimension_stable {e : Expr} (h : Agree lookup lookup' e.references) :
    Stable EncodeError.IsPending (e.encodeDimension lookup) (e.encodeDimension lookup') := by
  induction e with
  | number _ _ => exact .refl _
  | literal _ _ => exact .refl _
  | magnitude m _ => cases m <;> exact .refl _
  | reference name span =>
    refine .bind (Lookup.resolve_stable (h name ?_) name span) fun u _ => .refl _
    exact mem_singleton_self _
  | signed _ e ih => exact ih h
  | paren e ih => exact .bind (ih h) fun d _ => .refl _
  | arith op l r ihl ihr =>
    obtain ⟨hl, hr⟩ := Agree.append h
    cases op with
    | product => exact .bind (ihl hl) fun a _ => .bind (ihr hr) fun b _ => .refl _
    | quotient => exact .bind (ihl hl) fun a _ => .bind (ihr hr) fun b _ => .refl _
    | sum => exact .refl _
    | difference => exact .refl _

/-- **How an expression gets its dimension**: an operand without dimension is left out. -/
inductive HasDimension (lookup : String → Lookup) : Expr → DimensionExpr → Prop
  | number {text : String} {span : Span} : HasDimension lookup (number text span) .plain
  | literal {name : String} {span : Span} : HasDimension lookup (literal name span) .plain
  | plain {span : Span} : HasDimension lookup (magnitude none span) .plain
  | magnitude {m : Magnitude} {span : Span} :
    HasDimension lookup (magnitude (some m) span) ⟨.basic m, "Dimension::" ++ m.constantName⟩
  | reference {name : String} {span : Span} {u : UnitSummary} : lookup name = .resolved u →
    HasDimension lookup (reference name span) ⟨u.dimension, u.name ++ "::DIMENSION"⟩
  | signed {negative : Bool} {e : Expr} {d : DimensionExpr} : HasDimension lookup e d →
    HasDimension lookup (signed negative e) d
  | paren {e : Expr} {d : DimensionExpr} : HasDimension lookup e d →
    HasDimension lookup (paren e) ⟨d.value, Code.parenthesize d.code⟩
  | left {op : Arith} {l r : Expr} {a b : DimensionExpr} : op = .product ∨ op = .quotient →
    HasDimension lookup l a → HasDimension lookup r b → b.value.isNone = true →
      HasDimension lookup (arith op l r) a
  | right {l r : Expr} {a b : DimensionExpr} : HasDimension lookup l a → HasDimension lookup r b →
    a.value.isNone = true → HasDimension lookup (arith .product l r) b
  | product {l r : Expr} {a b : DimensionExpr} {v : Dimension} : HasDimension lookup l a →
    HasDimension lookup r b → a.value.mul b.value = .ok v →
      HasDimension lookup (arith .product l r) ⟨v, a.code ++ " * " ++ b.code⟩
  | quotient {l r : Expr} {a b : DimensionExpr} {v : Dimension} : HasDimension lookup l a →
    HasDimension lookup r b → a.value.div b.value = .ok v →
      HasDimension lookup (arith .quotient l r) ⟨v, a.code ++ " / " ++ b.code⟩

theorem hasDimension_of_encodeDimension (h : e.encodeDimension lookup = .ok d) :
    HasDimension lookup e d := by
  induction e generalizing d with
  | number _ _ =>
    cases h
    exact .number
  | literal _ _ =>
    cases h
    exact .literal
  | magnitude m _ =>
    cases m <;> cases h
    · exact .plain
    · exact .magnitude
  | reference name span =>
    obtain ⟨u, hu, h⟩ := bind_eq_ok_iff.mp h
    cases h
    exact .reference (Lookup.resolve_eq_ok_iff.mp hu)
  | signed _ e ih => exact .signed (ih h)
  | paren e ih =>
    obtain ⟨d', hd', h⟩ := bind_eq_ok_iff.mp h
    cases h
    exact .paren (ih hd')
  | arith op l r ihl ihr =>
    cases op with
    | product =>
      obtain ⟨a, ha, h⟩ := bind_eq_ok_iff.mp h
      obtain ⟨b, hb, h⟩ := bind_eq_ok_iff.mp h
      unfold dimensionProduct at h
      split_ifs at h with hleft hright
      · cases h
        exact .right (ihl ha) (ihr hb) hleft
      · cases h
        exact .left (.inl rfl) (ihl ha) (ihr hb) hright
      · split at h <;> cases h
        exact .product (ihl ha) (ihr hb) ‹_›
    | quotient =>
      obtain ⟨a, ha, h⟩ := bind_eq_ok_iff.mp h
      obtain ⟨b, hb, h⟩ := bind_eq_ok_iff.mp h
      unfold dimensionQuotient at h
      split_ifs at h with hnone
      · cases h
        exact .left (.inr rfl) (ihl ha) (ihr hb) hnone
      · split at h <;> cases h
        exact .quotient (ihl ha) (ihr hb) ‹_›
    | sum => cases h
    | difference => cases h

/-- **An expression with a dimension refers to units only.** -/
theorem resolved_of_encodeDimension {e : Expr} (h : e.encodeDimension lookup = .ok d) :
    ∀ name ∈ e.references, ∃ u, lookup name = .resolved u := by
  replace h := hasDimension_of_encodeDimension h
  induction h with
  | number | literal | plain | magnitude => simp [references]
  | reference hu => simp [references, hu]
  | signed _ ih | paren _ ih => exact ih
  | left _ _ _ _ ihl ihr | right _ _ _ ihl ihr | product _ _ _ ihl ihr | quotient _ _ _ ihl ihr =>
    exact fun name hn => (mem_append.mp hn).elim (ihl name) (ihr name)

theorem error_of_dimensionProduct {span : Span} (h : dimensionProduct span l r = .error err) :
    ∃ cause, err = .dimension cause span := by
  unfold dimensionProduct at h
  split_ifs at h
  split at h <;> cases h
  exact ⟨_, rfl⟩

theorem error_of_dimensionQuotient {span : Span} (h : dimensionQuotient span l r = .error err) :
    ∃ cause, err = .dimension cause span := by
  unfold dimensionQuotient at h
  split_ifs at h
  split at h <;> cases h
  exact ⟨_, rfl⟩

/-- **Where an error of an expression comes from**: a name that leads to no unit, or a part that is
refused at its own place. `sums` says whether sums and differences are refused. -/
inductive Blames (lookup : String → Lookup) (sums : Prop) : Expr → EncodeError → Prop
  | name {name : String} {span : Span} {err : EncodeError} :
    (lookup name).resolve name span = .error err → Blames lookup sums (reference name span) err
  | kind {name : String} {span : Span} {expected found : NumericKind} :
    Blames lookup sums (reference name span) (.kindMismatch name span expected found)
  | numeral {e : Expr} {cause : NumeralError} : Blames lookup sums e (.numeral cause e.span)
  | dimension {e : Expr} {cause : DimensionError} : Blames lookup sums e (.dimension cause e.span)
  | sum {op : Arith} {l r : Expr} {text : String} : sums → op = .sum ∨ op = .difference →
    Blames lookup sums (arith op l r) (.addsDimensions text)
  | signed {negative : Bool} {e : Expr} {err : EncodeError} : Blames lookup sums e err →
    Blames lookup sums (signed negative e) err
  | paren {e : Expr} {err : EncodeError} : Blames lookup sums e err →
    Blames lookup sums (paren e) err
  | left {op : Arith} {l r : Expr} {err : EncodeError} : Blames lookup sums l err →
    Blames lookup sums (arith op l r) err
  | right {op : Arith} {l r : Expr} {err : EncodeError} : Blames lookup sums r err →
    Blames lookup sums (arith op l r) err

theorem Blames.justified {e : Expr} (h : e.Blames lookup sums err) : err.Justified lookup e := by
  induction h with
  | name h => exact Lookup.justified_of_resolve h
  | kind | numeral | dimension => trivial
  | sum _ hop => rcases hop with rfl | rfl <;> simp [EncodeError.Justified, IsProduct]
  | signed _ ih => exact ih.of_part (List.Subset.refl _) False.elim
  | paren _ ih => exact ih.of_part (List.Subset.refl _) id
  | left _ ih => exact ih.of_part (subset_append_left _ _) fun hp => hp.2.1
  | right _ ih => exact ih.of_part (subset_append_right _ _) fun hp => hp.2.2

theorem blames_of_encodeDimension {e : Expr} (h : e.encodeDimension lookup = .error err) :
    e.Blames lookup True err := by
  induction e generalizing err with
  | number _ _ => cases h
  | literal _ _ => cases h
  | magnitude m _ => cases m <;> cases h
  | reference name span =>
    rcases bind_eq_error_iff.mp h with h | ⟨u, -, h⟩
    · exact .name h
    · cases h
  | signed _ e ih => exact .signed (ih h)
  | paren e ih =>
    rcases bind_eq_error_iff.mp h with h | ⟨d, -, h⟩
    · exact .paren (ih h)
    · cases h
  | arith op l r ihl ihr =>
    cases op with
    | product =>
      rcases bind_eq_error_iff.mp h with h | ⟨a, -, h⟩
      · exact .left (ihl h)
      · rcases bind_eq_error_iff.mp h with h | ⟨b, -, h⟩
        · exact .right (ihr h)
        · obtain ⟨cause, rfl⟩ := error_of_dimensionProduct h
          exact .dimension
    | quotient =>
      rcases bind_eq_error_iff.mp h with h | ⟨a, -, h⟩
      · exact .left (ihl h)
      · rcases bind_eq_error_iff.mp h with h | ⟨b, -, h⟩
        · exact .right (ihr h)
        · obtain ⟨cause, rfl⟩ := error_of_dimensionQuotient h
          exact .dimension
    | sum =>
      cases h
      exact .sum trivial (.inl rfl)
    | difference =>
      cases h
      exact .sum trivial (.inr rfl)

/-! ### Value -/

/-- **A value that does not wait for a unit stays the same.** -/
theorem encodeValue_stable {e : Expr} (h : Agree lookup lookup' e.references) :
    Stable EncodeError.IsPending (e.encodeValue lookup kind) (e.encodeValue lookup' kind) := by
  induction e with
  | number _ _ => exact .refl _
  | literal _ _ => exact .refl _
  | magnitude _ _ => exact .refl _
  | reference name span =>
    refine .bind (Lookup.resolve_stable (h name ?_) name span) fun u _ => .refl _
    exact mem_singleton_self _
  | signed _ e ih => exact .bind (ih h) fun n _ => .refl _
  | paren e ih => exact .bind (ih h) fun n _ => .refl _
  | arith op l r ihl ihr =>
    obtain ⟨hl, hr⟩ := Agree.append h
    exact .bind (ihl hl) fun a _ => .bind (ihr hr) fun b _ => .refl _

/-- **How an expression gets its value.** -/
inductive HasValue (lookup : String → Lookup) (kind : NumericKind) : Expr → NumeralExpr → Prop
  | number {text : String} {span : Span} {n : Numeral} : kind.parse text = .ok n →
    HasValue lookup kind (number text span) (.ofNumeral n)
  | literal {name : String} {span : Span} :
    HasValue lookup kind (literal name span) (literalValue kind name)
  | magnitude {m : Option Magnitude} {span : Span} :
    HasValue lookup kind (magnitude m span) (.ofNumeral kind.one)
  | reference {name : String} {span : Span} {u : UnitSummary} : lookup name = .resolved u →
    u.kind = kind →
      HasValue lookup kind (reference name span) ⟨u.constant, u.factor, u.name ++ "::FACTOR"⟩
  | positive {e : Expr} {n : NumeralExpr} : HasValue lookup kind e n →
    HasValue lookup kind (signed false e) n
  | negative {e : Expr} {n : NumeralExpr} : HasValue lookup kind e n →
    HasValue lookup kind (signed true e) ⟨n.constant, n.value.neg, "-" ++ n.code⟩
  | paren {e : Expr} {n : NumeralExpr} : HasValue lookup kind e n →
    HasValue lookup kind (paren e) ⟨n.constant, n.value, Code.parenthesize n.code⟩
  | arith {op : Arith} {l r : Expr} {a b : NumeralExpr} {v : Numeral} : HasValue lookup kind l a →
    HasValue lookup kind r b → op.apply a.value b.value = .ok v →
      HasValue lookup kind (arith op l r)
        ⟨a.constant && b.constant, v, a.code ++ " " ++ op.symbol ++ " " ++ b.code⟩

theorem hasValue_of_encodeValue (h : e.encodeValue lookup kind = .ok n) :
    HasValue lookup kind e n := by
  induction e generalizing n with
  | number text span =>
    unfold encodeValue at h
    split at h <;> cases h
    exact .number ‹_›
  | literal name _ =>
    cases h
    exact .literal
  | magnitude _ _ =>
    cases h
    exact .magnitude
  | reference name span =>
    obtain ⟨u, hu, h⟩ := bind_eq_ok_iff.mp h
    split_ifs at h with hkind
    cases h
    exact .reference (Lookup.resolve_eq_ok_iff.mp hu) hkind
  | signed negative e ih =>
    obtain ⟨n', hn', h⟩ := bind_eq_ok_iff.mp h
    cases negative <;> cases h
    · exact .positive (ih hn')
    · exact .negative (ih hn')
  | paren e ih =>
    obtain ⟨n', hn', h⟩ := bind_eq_ok_iff.mp h
    cases h
    exact .paren (ih hn')
  | arith op l r ihl ihr =>
    obtain ⟨a, ha, h⟩ := bind_eq_ok_iff.mp h
    obtain ⟨b, hb, h⟩ := bind_eq_ok_iff.mp h
    unfold combineValues at h
    split at h <;> cases h
    exact .arith (ihl ha) (ihr hb) ‹_›

theorem error_of_combineValues {span : Span} (h : combineValues op span l r = .error err) :
    ∃ cause, err = .numeral cause span := by
  unfold combineValues at h
  split at h <;> cases h
  exact ⟨_, rfl⟩

theorem blames_of_encodeValue {e : Expr} (h : e.encodeValue lookup kind = .error err) :
    e.Blames lookup False err := by
  induction e generalizing err with
  | number text span =>
    unfold encodeValue at h
    split at h <;> cases h
    exact .numeral
  | literal _ _ => cases h
  | magnitude _ _ => cases h
  | reference name span =>
    rcases bind_eq_error_iff.mp h with h | ⟨u, -, h⟩
    · exact .name h
    · split_ifs at h <;> cases h
      exact .kind
  | signed _ e ih =>
    rcases bind_eq_error_iff.mp h with h | ⟨n, -, h⟩
    · exact .signed (ih h)
    · cases h
  | paren e ih =>
    rcases bind_eq_error_iff.mp h with h | ⟨n, -, h⟩
    · exact .paren (ih h)
    · cases h
  | arith op l r ihl ihr =>
    rcases bind_eq_error_iff.mp h with h | ⟨a, -, h⟩
    · exact .left (ihl h)
    · rcases bind_eq_error_iff.mp h with h | ⟨b, -, h⟩
      · exact .right (ihr h)
      · obtain ⟨cause, rfl⟩ := error_of_combineValues h
        exact .numeral

end Expr

end Quantity
