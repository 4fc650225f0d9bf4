import Quantity.Proofs.Dimension
import Quantity.Proofs.Expr.Stack

/-!
# Encoding by recursion

The encoders fold an expression from its leaves up. What they give is said here by recursion over the
expression, apart from code and checks: `meaning` is its value in a kind and `exponent` the exact
exponent of a magnitude. What they refuse is said by one node: `fault?` and `overflow?` tell what is
wrong with a node whose operands are in order. An encoder answers with the recursion, or else with
the fault of the first node that has one (`encodeValue_meaning`, `encodeDimension_exact`), where
operands come before their node and left ones before right ones (`nodes`).
-/

namespace Quantity

namespace Expr

variable {lookup : String → Lookup} {kind : NumericKind} {e l r : Expr}

/-- The expression and its parts, each behind its operands, from left to right. -/
def nodes : Expr → List Expr
  | number text s => [number text s]
  | literal name s => [literal name s]
  | magnitude m s => [magnitude m s]
  | reference name s => [reference name s]
  | signed negative e => e.nodes ++ [signed negative e]
  | paren e => e.nodes ++ [paren e]
  | arith op l r => l.nodes ++ r.nodes ++ [arith op l r]

/-! ### Value -/

/-- The literal is neither a named constant nor a numeral. -/
def IsSymbolic (kind : NumericKind) (name : String) : Prop :=
  NamedConstant.ofName? name = none ∧ ∀ n, kind.parse name ≠ .ok n

/-- What a literal stands for: a named constant, or else a numeral, or else one. -/
def literalMeaning (kind : NumericKind) (name : String) : Numeral :=
  match NamedConstant.ofName? name with
  | some c => c.value kind
  | none => (kind.parse name).toOption.getD kind.one

/-- **The value of an expression**, if it has one. -/
def meaning (lookup : String → Lookup) (kind : NumericKind) : Expr → Option Numeral
  | number text _ => (kind.parse text).toOption
  | literal name _ => some (literalMeaning kind name)
  | magnitude _ _ => some kind.one
  | reference name _ =>
    match lookup name with
    | .resolved u => if u.kind = kind then some u.factor else none
    | _ => none
  | signed negative e => (meaning lookup kind e).map fun n => if negative then n.neg else n
  | paren e => meaning lookup kind e
  | arith op l r => do
    let a ← meaning lookup kind l
    let b ← meaning lookup kind r
    (op.apply a b).toOption

/-- What is wrong with a node, unless something is wrong with its operands. -/
def fault? (lookup : String → Lookup) (kind : NumericKind) : Expr → Option EncodeError
  | number text span =>
    match kind.parse text with
    | .ok _ => none
    | .error cause => some (.numeral cause span)
  | reference name span =>
    match lookup name with
    | .resolved u => if u.kind = kind then none else some (.kindMismatch name span kind u.kind)
    | .pending => some (.pending name span)
    | .invalid => some (.invalidReference name span)
    | .unknown => some (.unresolved name span)
  | arith op l r =>
    match meaning lookup kind l, meaning lookup kind r with
    | some a, some b =>
      match op.apply a b with
      | .ok _ => none
      | .error cause => some (.numeral cause (arith op l r).span)
    | _, _ => none
  | _ => none

/-- No literal of the expression is symbolic, and the factors of all its units are known. -/
def IsKnown (lookup : String → Lookup) (kind : NumericKind) (e : Expr) : Prop :=
  (∀ name span, literal name span ∈ e.nodes → ¬ IsSymbolic kind name) ∧
    ∀ name span u, reference name span ∈ e.nodes → lookup name = .resolved u → u.constant = true

@[simp] theorem isKnown_signed :
    (signed negative e).IsKnown lookup kind ↔ e.IsKnown lookup kind := by
  simp [IsKnown, nodes]

@[simp] theorem isKnown_paren : (paren e).IsKnown lookup kind ↔ e.IsKnown lookup kind := by
  simp [IsKnown, nodes]

@[simp] theorem isKnown_arith :
    (arith op l r).IsKnown lookup kind ↔ l.IsKnown lookup kind ∧ r.IsKnown lookup kind := by
  simp only [IsKnown, nodes, List.mem_append, List.mem_singleton, reduceCtorEq, or_false, or_imp,
    forall_and]
  exact and_and_and_comm

/-- The encoder's answer goes by the recursion: a value is the meaning, and known exactly if all its
leaves are; an error is the one of the first node with a fault. -/
def Answers (lookup : String → Lookup) (kind : NumericKind) (e : Expr) :
    Except EncodeError NumeralExpr → Prop
  | .ok n => e.meaning lookup kind = some n.value ∧ e.nodes.findSome? (fault? lookup kind) = none ∧
      (n.constant = true ↔ e.IsKnown lookup kind)
  | .error err => e.meaning lookup kind = none ∧
      e.nodes.findSome? (fault? lookup kind) = some err

theorem answers_literal (name : String) (span : Span) :
    (literal name span).Answers lookup kind (.ok (literalValue kind name)) := by
  have hknown : (literal name span).IsKnown lookup kind ↔ ¬ IsSymbolic kind name := by
    simp [IsKnown, nodes]
  have hfault : (literal name span).nodes.findSome? (fault? lookup kind) = none := by
    simp [nodes, fault?]
  cases hname : NamedConstant.ofName? name with
  | some c =>
    simp [Answers, literalValue, meaning, literalMeaning, IsSymbolic, hname, hfault, hknown]
  | none =>
    cases hparse : kind.parse name <;>
      simp [Answers, literalValue, meaning, literalMeaning, IsSymbolic, NumeralExpr.ofNumeral,
        Except.toOption, hname, hparse, hfault, hknown]

theorem answers_reference (name : String) (span : Span) : (reference name span).Answers lookup kind
    ((reference name span).encodeValue lookup kind) := by
  have hencode : (reference name span).encodeValue lookup kind =
      (lookup name).resolve name span >>= fun u => if u.kind = kind then
        .ok ⟨u.constant, u.factor, u.name ++ "::FACTOR"⟩ else
        .error (.kindMismatch name span kind u.kind) := rfl
  rw [hencode]
  cases hlookup : lookup name with
  | resolved u =>
    by_cases hkind : u.kind = kind
    · have hknown : (reference name span).IsKnown lookup kind ↔ u.constant = true := by
        constructor
        · intro h
          exact h.2 name span u (by simp [nodes]) hlookup
        · intro h
          refine ⟨by simp [nodes], ?_⟩
          intro name' span' u' hmem hlookup'
          obtain ⟨rfl, rfl⟩ : name' = name ∧ span' = span := by simpa [nodes] using hmem
          obtain rfl : u = u' := by simpa [hlookup] using hlookup'
          exact h
      simp [Lookup.resolve, Answers, meaning, nodes, fault?, hknown, hlookup, hkind, bind,
        Except.bind]
    · simp [Lookup.resolve, Answers, meaning, nodes, fault?, hlookup, hkind, bind, Except.bind]
  | _ => simp [Lookup.resolve, Answers, meaning, nodes, fault?, hlookup, bind, Except.bind]

theorem answers_arith (hl : l.Answers lookup kind (.ok a)) (hr : r.Answers lookup kind (.ok b)) :
    (arith op l r).Answers lookup kind (combineValues op (l.span.upTo r.span) a b) := by
  obtain ⟨hl, hfirst, hknown⟩ := hl
  obtain ⟨hr, hfirst', hknown'⟩ := hr
  unfold combineValues
  cases hop : op.apply a.value b.value with
  | ok n =>
    simp [Answers, meaning, nodes, fault?, hl, hr, hfirst, hfirst', hop, hknown, hknown',
      Except.toOption]
  | error cause =>
    simp [Answers, meaning, nodes, fault?, hl, hr, hfirst, hfirst', hop, Except.toOption, span]

/-- **The encoder of values answers by recursion**, node by node. -/
theorem answers_encodeValue (lookup : String → Lookup) (kind : NumericKind) (e : Expr) :
    e.Answers lookup kind (e.encodeValue lookup kind) := by
  induction e with
  | number text span =>
    cases hparse : kind.parse text with
    | ok n =>
      simp [encodeValue, Answers, meaning, nodes, fault?, hparse, IsKnown, NumeralExpr.ofNumeral,
        Except.toOption]
    | error cause => simp [encodeValue, Answers, meaning, nodes, fault?, hparse, Except.toOption]
  | literal name span => exact answers_literal name span
  | magnitude m span =>
    simp [encodeValue, Answers, meaning, nodes, fault?, IsKnown, NumeralExpr.ofNumeral]
  | reference name span => exact answers_reference name span
  | signed negative e ih =>
    unfold encodeValue
    cases hvalue : e.encodeValue lookup kind with
    | error err =>
      rw [hvalue] at ih
      obtain ⟨hnone, hfirst⟩ := ih
      simp [Except.bind, Answers, meaning, nodes, hnone, hfirst]
    | ok n =>
      rw [hvalue] at ih
      obtain ⟨hsome, hfirst, hknown⟩ := ih
      cases negative <;>
        simp [bind, pure, Except.bind, Except.pure, Answers, meaning, nodes, fault?, hsome, hfirst,
          hknown]
  | paren e ih =>
    unfold encodeValue
    cases hvalue : e.encodeValue lookup kind with
    | error err =>
      rw [hvalue] at ih
      obtain ⟨hnone, hfirst⟩ := ih
      simp [Except.bind, Answers, meaning, nodes, hnone, hfirst]
    | ok n =>
      rw [hvalue] at ih
      obtain ⟨hsome, hfirst, hknown⟩ := ih
      simp [bind, pure, Except.bind, Except.pure, Answers, meaning, nodes, fault?, hsome, hfirst,
        hknown]
  | arith op l r ihl ihr =>
    unfold encodeValue
    cases hvalue : l.encodeValue lookup kind with
    | error err =>
      rw [hvalue] at ihl
      obtain ⟨hnone, hfirst⟩ := ihl
      simp [bind, Except.bind, Answers, meaning, nodes, hnone, hfirst]
    | ok a =>
      rw [hvalue] at ihl
      cases hvalue' : r.encodeValue lookup kind with
      | error err =>
        rw [hvalue'] at ihr
        obtain ⟨hnone, hfirst⟩ := ihr
        simp [bind, Except.bind, Answers, meaning, nodes, hnone, hfirst, ihl.2.1]
      | ok b =>
        rw [hvalue'] at ihr
        exact answers_arith ihl ihr

/-- **Values are encoded by recursion.** On a stack of operands none is missing and none is left over;
the value, where there is one, is the meaning of the expression; an error is the one of the first node
with a fault, and never says that dimensions are added; and a value is known exactly if no literal is
symbolic and all units have known factors. -/
theorem encodeValue_meaning (lookup : String → Lookup) (kind : NumericKind) (e : Expr) :
    (visitValue lookup kind e [] >>= Stack.finish) =
        (e.encodeValue lookup kind).mapError .encoding ∧
      (e.encodeValue lookup kind).toOption.map NumeralExpr.value = e.meaning lookup kind ∧
      (∀ err, e.encodeValue lookup kind = .error err ↔
        e.nodes.findSome? (fault? lookup kind) = some err) ∧
      (∀ text, e.encodeValue lookup kind ≠ .error (.addsDimensions text)) ∧
      ∀ n, e.encodeValue lookup kind = .ok n → (n.constant = true ↔ e.IsKnown lookup kind) := by
  have hanswers := answers_encodeValue lookup kind e
  refine ⟨finish_visitValue lookup kind e, ?_, ?_, encodeValue_ne_addsDimensions lookup kind e, ?_⟩
  · cases hvalue : e.encodeValue lookup kind with
    | ok n =>
      rw [hvalue] at hanswers
      exact hanswers.1.symm
    | error err =>
      rw [hvalue] at hanswers
      exact hanswers.1.symm
  · intro err
    cases hvalue : e.encodeValue lookup kind with
    | ok n =>
      rw [hvalue] at hanswers
      simp [hanswers.2.1]
    | error err' =>
      rw [hvalue] at hanswers
      simp [hanswers.2]
  · intro n hvalue
    rw [hvalue] at hanswers
    exact hanswers.2.2

/-! ### Dimension -/

/-- **The exact exponent of a magnitude** in an expression that is a product. -/
def exponent (lookup : String → Lookup) (m : Magnitude) : Expr → Int
  | magnitude (some k) _ => if k = m then 1 else 0
  | reference name _ =>
    match lookup name with
    | .resolved u => (u.dimension.get m).toInt
    | _ => 0
  | signed _ e | paren e => exponent lookup m e
  | arith .product l r => exponent lookup m l + exponent lookup m r
  | arith .quotient l r => exponent lookup m l - exponent lookup m r
  | _ => 0

/-- The overflow of a product or quotient: the first magnitude whose exponent does not fit. -/
def overflow? (lookup : String → Lookup) : Expr → Option EncodeError
  | arith op l r =>
    (Magnitude.all.find? fun m => !decide (Dimension.InRange ((arith op l r).exponent lookup m))).map
      fun m => .dimension (.overflow m) (arith op l r).span
  | _ => none

/-- The expression has no sums and differences, and its references lead to units. -/
def IsResolved (lookup : String → Lookup) (e : Expr) : Prop :=
  (∀ op l r, arith op l r ∈ e.nodes → op = .product ∨ op = .quotient) ∧
    ∀ name ∈ e.references, ∃ u, lookup name = .resolved u

@[simp] theorem isResolved_signed :
    (signed negative e).IsResolved lookup ↔ e.IsResolved lookup := by
  simp [IsResolved, nodes, references]

@[simp] theorem isResolved_paren : (paren e).IsResolved lookup ↔ e.IsResolved lookup := by
  simp [IsResolved, nodes, references]

theorem isResolved_arith : (arith op l r).IsResolved lookup ↔
    (op = .product ∨ op = .quotient) ∧ l.IsResolved lookup ∧ r.IsResolved lookup := by
  simp only [IsResolved, nodes, references, List.mem_append, List.mem_singleton, arith.injEq, or_imp,
    forall_and]
  constructor
  · rintro ⟨⟨⟨hl, hr⟩, hop⟩, hl', hr'⟩
    exact ⟨hop op l r ⟨rfl, rfl, rfl⟩, ⟨hl, hl'⟩, hr, hr'⟩
  · rintro ⟨hop, ⟨hl, hl'⟩, hr, hr'⟩
    refine ⟨⟨⟨hl, hr⟩, ?_⟩, hl', hr'⟩
    rintro _ _ _ ⟨rfl, rfl, rfl⟩
    exact hop

/-- A product has the sums of the exponents or is refused for the first that does not fit: leaving
out a factor without dimension hides no overflow. -/
theorem map_dimensionProduct (span : Span) (a b : DimensionExpr) :
    (dimensionProduct span a b).map DimensionExpr.value =
      (a.value.mul b.value).mapError fun cause => .dimension cause span := by
  unfold dimensionProduct
  by_cases ha : a.value.isNone = true
  · have hsum : a.value.mul b.value = .ok b.value := by
      rw [Dimension.mul_eq_ok_iff, Dimension.isNone_iff.mp ha]
      intro m
      rw [Dimension.toInt_get_none, Int.zero_add]
    simp [ha, hsum, Except.map, Except.mapError]
  · by_cases hb : b.value.isNone = true
    · have hsum : a.value.mul b.value = .ok a.value := by
        rw [Dimension.mul_eq_ok_iff, Dimension.isNone_iff.mp hb]
        intro m
        rw [Dimension.toInt_get_none, Int.add_zero]
      simp [ha, hb, hsum, Except.map, Except.mapError]
    · cases a.value.mul b.value <;> simp [ha, hb, Except.map, Except.mapError]

theorem map_dimensionQuotient (span : Span) (a b : DimensionExpr) :
    (dimensionQuotient span a b).map DimensionExpr.value =
      (a.value.div b.value).mapError fun cause => .dimension cause span := by
  unfold dimensionQuotient
  by_cases hb : b.value.isNone = true
  · have hdifference : a.value.div b.value = .ok a.value := by
      rw [Dimension.div_eq_ok_iff, Dimension.isNone_iff.mp hb]
      intro m
      rw [Dimension.toInt_get_none, Int.sub_zero]
    simp [hb, hdifference, Except.map, Except.mapError]
  · cases a.value.div b.value <;> simp [hb, Except.map, Except.mapError]

/-- The encoder's answer is exact: a dimension has the exact exponents and none of its nodes
overflows; an error is the overflow of the first node that does, unless a reference leads nowhere or
dimensions are added. -/
def IsExact (lookup : String → Lookup) (e : Expr) : Except EncodeError DimensionExpr → Prop
  | .ok d => (∀ m, (d.value.get m).toInt = e.exponent lookup m) ∧
      e.nodes.findSome? (overflow? lookup) = none
  | .error err => e.IsResolved lookup → e.nodes.findSome? (overflow? lookup) = some err

/-- Operands are encoded from left to right and then combined, or the node overflows. -/
theorem isExact_arith {combine : DimensionExpr → DimensionExpr → Except EncodeError DimensionExpr}
    (hcombine : ∀ a b, (∀ m, (a.value.get m).toInt = l.exponent lookup m) → (∀ m, (b.value.get
      m).toInt = r.exponent lookup m) → (combine a b).map DimensionExpr.value = (Dimension.ofInts
      fun m => (arith op l r).exponent lookup m).mapError fun cause => .dimension cause (arith op l
      r).span) (hl : l.IsExact lookup (l.encodeDimension lookup))
    (hr : r.IsExact lookup (r.encodeDimension lookup)) : (arith op l r).IsExact lookup
      (l.encodeDimension lookup >>= fun a => r.encodeDimension lookup >>= combine a) := by
  cases ha : l.encodeDimension lookup with
  | error err =>
    rw [ha] at hl
    intro hresolved
    simp [nodes, hl (isResolved_arith.mp hresolved).2.1]
  | ok a =>
    rw [ha] at hl
    cases hb : r.encodeDimension lookup with
    | error err =>
      rw [hb] at hr
      intro hresolved
      simp [nodes, hl.2, hr (isResolved_arith.mp hresolved).2.2]
    | ok b =>
      rw [hb] at hr
      have hints := hcombine a b hl.1 hr.1
      show IsExact lookup (arith op l r) (combine a b)
      cases hfind : Magnitude.all.find?
          fun m => !decide (Dimension.InRange ((arith op l r).exponent lookup m)) with
      | none =>
        obtain ⟨d, hd⟩ : ∃ d, combine a b = .ok d := by
          cases h : combine a b <;>
            simp_all [Dimension.ofInts, Except.map, Except.mapError]
        have hexact : ∀ m, (d.value.get m).toInt = (arith op l r).exponent lookup m := by
          refine Dimension.ofInts_eq_ok_iff.mp ?_
          simpa [Dimension.ofInts, hfind, hd, Except.map, Except.mapError, eq_comm] using hints
        rw [hd]
        exact ⟨hexact, by simp [nodes, hl.2, hr.2, overflow?, hfind]⟩
      | some m =>
        have hd : combine a b = .error (.dimension (.overflow m) (arith op l r).span) := by
          cases h : combine a b <;>
            simp_all [Dimension.ofInts, Except.map, Except.mapError]
        rw [hd]
        intro _
        simp [nodes, hl.2, hr.2, overflow?, hfind]

/-- **The encoder of dimensions is exact**, node by node. -/
theorem isExact_encodeDimension (lookup : String → Lookup) (e : Expr) :
    e.IsExact lookup (e.encodeDimension lookup) := by
  induction e with
  | number text span =>
    exact ⟨Dimension.toInt_get_none, by simp [nodes, overflow?]⟩
  | literal name span => exact ⟨Dimension.toInt_get_none, by simp [nodes, overflow?]⟩
  | magnitude m span =>
    cases m with
    | none => exact ⟨Dimension.toInt_get_none, by simp [nodes, overflow?]⟩
    | some m =>
      refine ⟨?_, by simp [nodes, overflow?]⟩
      intro k
      by_cases h : k = m
      · simp [exponent, Dimension.basic, h]
      · simp [exponent, Dimension.basic, h, Ne.symm h]
  | reference name span =>
    cases hlookup : lookup name with
    | resolved u =>
      simp [encodeDimension, hlookup, Lookup.resolve, bind, Except.bind, pure, Except.pure,
        IsExact, exponent, nodes, overflow?]
    | _ =>
      simp [encodeDimension, hlookup, Lookup.resolve, Except.bind, IsExact, IsResolved,
        references]
  | signed negative e ih =>
    unfold encodeDimension
    cases hvalue : e.encodeDimension lookup <;> rw [hvalue] at ih <;>
      simpa [IsExact, exponent, nodes, overflow?] using ih
  | paren e ih =>
    unfold encodeDimension
    cases hvalue : e.encodeDimension lookup <;> rw [hvalue] at ih <;>
      simpa [IsExact, exponent, nodes, overflow?, bind, Except.bind, pure, Except.pure] using ih
  | arith op l r ihl ihr =>
    cases op with
    | product =>
      refine isExact_arith ?_ ihl ihr
      intro a b ha hb
      rw [map_dimensionProduct]
      simp only [Dimension.mul, ha, hb, exponent, span]
    | quotient =>
      refine isExact_arith ?_ ihl ihr
      intro a b ha hb
      rw [map_dimensionQuotient]
      simp only [Dimension.div, ha, hb, exponent, span]
    | sum | difference =>
      intro hresolved
      simpa using (isResolved_arith.mp hresolved).1

theorem overflow?_isSome_iff : (overflow? lookup e).isSome = true ↔
    ∃ op l r, e = arith op l r ∧ ∃ m, ¬ Dimension.InRange (e.exponent lookup m) := by
  cases e <;> simp [overflow?, Magnitude.mem_all]

/-- **Dimensions are encoded exactly.** On a stack of operands none is missing and none is left over;
a dimension has in each slot the exact exponent of the expression; and where no dimensions are added
and all references lead to units, exactly an exponent that does not fit makes the encoder refuse, at
the first product or quotient with one and for the first magnitude of it. -/
theorem encodeDimension_exact (lookup : String → Lookup) (e : Expr) :
    (visitDimension lookup e [] >>= Stack.finish) =
        (e.encodeDimension lookup).mapError .encoding ∧
      (∀ d, e.encodeDimension lookup = .ok d →
        ∀ m, (d.value.get m).toInt = e.exponent lookup m) ∧
      (e.IsResolved lookup →
        ((∃ err, e.encodeDimension lookup = .error err) ↔ ∃ op l r, arith op l r ∈ e.nodes ∧
          ∃ m, ¬ Dimension.InRange ((arith op l r).exponent lookup m)) ∧
        ∀ err, e.encodeDimension lookup = .error err ↔
          e.nodes.findSome? (overflow? lookup) = some err) := by
  have hexact := isExact_encodeDimension lookup e
  refine ⟨finish_visitDimension lookup e, ?_, ?_⟩
  · intro d hd
    rw [hd] at hexact
    exact hexact.1
  · intro hresolved
    have herror : ∀ err, e.encodeDimension lookup = .error err ↔
        e.nodes.findSome? (overflow? lookup) = some err := by
      intro err
      cases hd : e.encodeDimension lookup with
      | ok d =>
        rw [hd] at hexact
        simp [hexact.2]
      | error err' =>
        rw [hd] at hexact
        simp [hexact hresolved]
    refine ⟨?_, herror⟩
    calc (∃ err, e.encodeDimension lookup = .error err)
        ↔ (e.nodes.findSome? (overflow? lookup)).isSome = true := by
          simp only [herror, Option.isSome_iff_exists]
      _ ↔ ∃ node ∈ e.nodes, (overflow? lookup node).isSome = true := by
          rw [List.findSome?_isSome_iff]
      _ ↔ _ := by
          constructor
          · rintro ⟨node, hmem, hsome⟩
            obtain ⟨op, l, r, rfl, hm⟩ := overflow?_isSome_iff.mp hsome
            exact ⟨op, l, r, hmem, hm⟩
          · rintro ⟨op, l, r, hmem, hm⟩
            exact ⟨arith op l r, hmem, overflow?_isSome_iff.mpr ⟨op, l, r, rfl, hm⟩⟩

end Expr

end Quantity
