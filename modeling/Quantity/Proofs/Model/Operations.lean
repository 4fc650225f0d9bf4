import Quantity.Model.Operations
import Quantity.Proofs.Dimension
import Quantity.Proofs.Model.Places
import Mathlib.Data.List.Nodup

/-!
# What the table of operations holds

The table is computed by trying all pairs of units. Here it is described without the search:
`Entry` says which operations belong to it and what their results are, in terms of places,
exponents and factors only. `isOperationTable_operationTable` proves that the table has each
of these entries exactly once and no others.
-/

namespace Quantity

open List

/-- Whether an operation joins two operands by an operator. -/
def Operation.joins (op : Operator) (lhs rhs : Operand) (o : Operation) : Bool :=
  o.operator = op && o.lhs = lhs && o.rhs = rhs

namespace Model

variable {units : List UnitEntry} {d : Dimension} {kind : NumericKind}

/-! ### The description -/

/-- The unit `u` at place `i` takes part in operations: it has a meaning, a family and a
dimension. -/
def TakesPart (units : List UnitEntry) (i : Nat) (u : UnitEntry) : Prop :=
  units[i]? = some u ∧ u.valid = true ∧ u.family ≠ none ∧ u.dimension.value ≠ .none

/-- The unit `u` at place `i` takes part in operations and has a dimension and a kind. -/
def HasShape (units : List UnitEntry) (d : Dimension) (kind : NumericKind) (i : Nat)
    (u : UnitEntry) : Prop :=
  TakesPart units i u ∧ u.dimension.value = d ∧ u.kind = kind

/-- Place `i` is the first one with a property. -/
def IsFirst (P : Nat → UnitEntry → Prop) (i : Nat) : Prop :=
  (∃ u, P i u) ∧ ∀ j v, P j v → i ≤ j

/-- The unit has the factor that an operation computes, if it computes one. -/
def Matches (value : Except NumeralError Numeral) (u : UnitEntry) : Prop :=
  ∃ t, value = .ok t ∧ u.factor.value.approxEq t factorTolerance = true

/-- **The unit an operation results in**, if its dimension is `d` and its factor `value`: the
first one with the right factor, or else the first prime, or else the first of all. -/
inductive IsResult (units : List UnitEntry) (d : Dimension) (kind : NumericKind)
    (value : Except NumeralError Numeral) : Nat → Prop where
  /-- The first unit with the right factor. -/
  | matching {i : Nat} (h : IsFirst (fun i u => HasShape units d kind i u ∧ Matches value u) i) :
      IsResult units d kind value i
  /-- The first prime, where no unit has the right factor. -/
  | prime {i : Nat} (hm : ∀ j v, HasShape units d kind j v → ¬ Matches value v)
      (h : IsFirst (fun i u => HasShape units d kind i u ∧ u.isPrime = true) i) :
      IsResult units d kind value i
  /-- The first unit, where no unit has the right factor and none is a prime. -/
  | first {i : Nat} (hm : ∀ j v, HasShape units d kind j v → ¬ Matches value v)
      (hp : ∀ j v, HasShape units d kind j v → v.isPrime = false)
      (h : IsFirst (HasShape units d kind) i) : IsResult units d kind value i

/-- **The operations between units**, with their results. -/
inductive Entry (units : List UnitEntry) : Operation → Prop where
  /-- A product without dimension is a plain number. -/
  | productNumber {l r : Nat} {u v : UnitEntry} (hl : TakesPart units l u)
      (hr : TakesPart units r v) (hk : u.kind = v.kind)
      (hd : Dimension.IsSum u.dimension.value v.dimension.value .none) :
      Entry units ⟨.product, .unit l, .unit r, .number u.kind⟩
  /-- A product that is a unit. -/
  | productUnit {l r i : Nat} {u v : UnitEntry} {d : Dimension} (hl : TakesPart units l u)
      (hr : TakesPart units r v) (hk : u.kind = v.kind)
      (hd : Dimension.IsSum u.dimension.value v.dimension.value d) (hn : d ≠ .none)
      (hi : IsResult units d u.kind (u.factor.value.mul v.factor.value) i) :
      Entry units ⟨.product, .unit l, .unit r, .unit i⟩
  /-- A quotient of units of different families. -/
  | quotient {l r i : Nat} {u v : UnitEntry} {d : Dimension} (hl : TakesPart units l u)
      (hr : TakesPart units r v) (hk : u.kind = v.kind) (hf : u.family ≠ v.family)
      (hd : Dimension.IsDifference u.dimension.value v.dimension.value d) (hn : d ≠ .none)
      (hi : IsResult units d u.kind (u.factor.value.div v.factor.value) i) :
      Entry units ⟨.quotient, .unit l, .unit r, .unit i⟩
  /-- A reciprocal. -/
  | reciprocal {r i : Nat} {v : UnitEntry} {d : Dimension} (hr : TakesPart units r v)
      (hd : Dimension.IsNegation v.dimension.value d)
      (hi : IsResult units d v.kind (v.kind.one.div v.factor.value) i) :
      Entry units ⟨.quotient, .number v.kind, .unit r, .unit i⟩

/-- **A table of operations is complete, without repetition and without anything else.** -/
structure IsOperationTable (units : List UnitEntry) (operations : List Operation) : Prop where
  /-- Two units of a kind have one product exactly if it is a number or has the dimension of
  some unit. -/
  product : ∀ l r u v, TakesPart units l u → TakesPart units r v → u.kind = v.kind →
    (operations.countP (Operation.joins .product (.unit l) (.unit r)) = 1 ↔
      ∃ d, Dimension.IsSum u.dimension.value v.dimension.value d ∧
        (d = .none ∨ ∃ i w, HasShape units d u.kind i w))
  /-- They have one quotient exactly if they are of different families and the quotient has
  the dimension of some unit. -/
  quotient : ∀ l r u v, TakesPart units l u → TakesPart units r v → u.kind = v.kind →
    (operations.countP (Operation.joins .quotient (.unit l) (.unit r)) = 1 ↔
      u.family ≠ v.family ∧
        ∃ d, Dimension.IsDifference u.dimension.value v.dimension.value d ∧ d ≠ .none ∧
          ∃ i w, HasShape units d u.kind i w)
  /-- A unit has one reciprocal exactly if that has the dimension of some unit. -/
  reciprocal : ∀ r v, TakesPart units r v →
    (operations.countP (Operation.joins .quotient (.number v.kind) (.unit r)) = 1 ↔
      ∃ d, Dimension.IsNegation v.dimension.value d ∧ ∃ i w, HasShape units d v.kind i w)
  /-- Every operation is one of these, with its result. -/
  entry : ∀ o ∈ operations, Entry units o

/-! ### Candidates -/

theorem mem_candidates : c ∈ candidates units ↔ TakesPart units c.place c.unit := by
  unfold candidates TakesPart
  rw [mem_filterMap]
  constructor
  · rintro ⟨⟨u, i⟩, hmem, h⟩
    rw [mem_zipIdx_iff_getElem?] at hmem
    dsimp only at h
    split_ifs at h with hc
    cases h
    simp only [Bool.and_eq_true, Bool.not_eq_true', Dimension.isNone_eq_false_iff] at hc
    exact ⟨hmem, hc.1.1, Option.isSome_iff_ne_none.mp hc.1.2, hc.2⟩
  · rintro ⟨hmem, hv, hf, hd⟩
    refine ⟨(c.unit, c.place), mem_zipIdx_iff_getElem?.mpr hmem, ?_⟩
    have hc : (c.unit.valid && c.unit.family.isSome && !c.unit.dimension.value.isNone) = true := by
      simp [hv, Option.isSome_iff_ne_none.mpr hf, Dimension.isNone_eq_false_iff.mpr hd]
    simp only [hc, if_true]

theorem pairwise_candidates : (candidates units).Pairwise fun a b => a.place < b.place := by
  unfold candidates
  rw [pairwise_filterMap]
  refine pairwise_zipIdx.imp ?_
  rintro ⟨u, i⟩ ⟨v, j⟩ hij c hc c' hc'
  dsimp only at hc hc'
  split_ifs at hc hc'
  cases hc
  cases hc'
  exact hij

theorem mem_candidatesOf :
    c ∈ candidatesOf (candidates units) d kind ↔ HasShape units d kind c.place c.unit := by
  unfold candidatesOf HasShape
  simp [mem_candidates]

theorem TakesPart.unique (h : TakesPart units i u) (h' : TakesPart units i v) : u = v :=
  Option.some.inj (h.1.symm.trans h'.1)

/-! ### Results -/

/-- The search among the units of a shape finds the first place with a property. -/
theorem find?_candidatesOf_iff {p : UnitEntry → Bool} {c : Candidate} :
    (candidatesOf (candidates units) d kind).find? (fun c => p c.unit) = some c ↔
      HasShape units d kind c.place c.unit ∧
        IsFirst (fun i u => HasShape units d kind i u ∧ p u = true) c.place := by
  have hs : (candidatesOf (candidates units) d kind).Pairwise fun a b => a.place < b.place :=
    pairwise_candidates.filter _
  rw [find?_eq_some_iff_first hs, mem_candidatesOf]
  constructor
  · rintro ⟨hc, hpc, hmin⟩
    exact ⟨hc, ⟨c.unit, hc, hpc⟩, fun j v hv => hmin ⟨j, v⟩ (mem_candidatesOf.mpr hv.1) hv.2⟩
  · rintro ⟨hc, ⟨u, hu, hpu⟩, hmin⟩
    rw [hu.1.unique hc.1] at hpu
    exact ⟨hc, hpu, fun c' hc' hpc' => hmin _ _ ⟨mem_candidatesOf.mp hc', hpc'⟩⟩

theorem find?_candidatesOf_eq_none {p : UnitEntry → Bool} :
    (candidatesOf (candidates units) d kind).find? (fun c => p c.unit) = none ↔
      ∀ j v, HasShape units d kind j v → p v = false := by
  simp only [List.find?_eq_none, Bool.not_eq_true]
  constructor
  · intro h j v hv
    exact h ⟨j, v⟩ (mem_candidatesOf.mpr hv)
  · intro h c hc
    exact h _ _ (mem_candidatesOf.mp hc)

/-- Whether a unit has the factor that an operation computes. -/
def hasFactor (value : Except NumeralError Numeral) (u : UnitEntry) : Bool :=
  match value with
  | .ok t => u.factor.value.approxEq t factorTolerance
  | .error _ => false

theorem hasFactor_iff : hasFactor value u = true ↔ Matches value u := by
  cases value <;> simp [hasFactor, Matches]

theorem hasFactor_eq_false_iff : hasFactor value u = false ↔ ¬ Matches value u := by
  rw [← hasFactor_iff, Bool.not_eq_true]

theorem pickResult_eq (cs : List Candidate) (value : Except NumeralError Numeral) :
    pickResult cs value.toOption =
      ((cs.find? fun c => hasFactor value c.unit).or (cs.find? fun c => c.unit.isPrime)).or
        (cs.find? fun _ => true) := by
  have hhead : cs.find? (fun _ => true) = cs.head? := by cases cs <;> rfl
  rw [hhead]
  cases value with
  | error e =>
    have hnone : cs.find? (fun c => hasFactor (.error e) c.unit) = none := by simp [hasFactor]
    rw [hnone]
    rfl
  | ok t => rfl

/-- **The search for a result finds the one described.** -/
theorem resultUnit?_eq_some_iff :
    resultUnit? (candidates units) d kind value = some o ↔
      ∃ i, o = .unit i ∧ IsResult units d kind value i := by
  unfold resultUnit?
  rw [pickResult_eq, Option.map_eq_some_iff]
  have hall := @find?_candidatesOf_iff units d kind fun _ => true
  have hmatch := @find?_candidatesOf_iff units d kind (hasFactor value)
  have hmiss := @find?_candidatesOf_eq_none units d kind (hasFactor value)
  simp only [hasFactor_iff] at hmatch
  simp only [hasFactor_eq_false_iff] at hmiss
  simp only [and_true] at hall
  constructor
  · rintro ⟨c, hc, rfl⟩
    refine ⟨c.place, rfl, ?_⟩
    rcases Option.or_eq_some_iff.mp hc with hc | ⟨hnone, hc⟩
    · rcases Option.or_eq_some_iff.mp hc with hc | ⟨hnone, hc⟩
      · exact .matching (hmatch.mp hc).2
      · exact .prime (hmiss.mp hnone) (find?_candidatesOf_iff.mp hc).2
    · obtain ⟨hm, hp⟩ := Option.or_eq_none_iff.mp hnone
      exact .first (hmiss.mp hm) (find?_candidatesOf_eq_none.mp hp) (hall.mp hc).2
  · rintro ⟨i, rfl, h⟩
    cases h with
    | matching h =>
      obtain ⟨u, hu, -⟩ := h.1
      refine ⟨⟨i, u⟩, ?_, rfl⟩
      rw [hmatch (c := ⟨i, u⟩) |>.mpr ⟨hu, h⟩, Option.some_or, Option.some_or]
    | prime hm h =>
      obtain ⟨u, hu, -⟩ := h.1
      refine ⟨⟨i, u⟩, ?_, rfl⟩
      rw [hmiss.mpr hm, find?_candidatesOf_iff (c := ⟨i, u⟩) |>.mpr ⟨hu, h⟩, Option.none_or,
        Option.some_or]
    | first hm hp h =>
      obtain ⟨u, hu⟩ := h.1
      refine ⟨⟨i, u⟩, ?_, rfl⟩
      rw [hmiss.mpr hm, find?_candidatesOf_eq_none.mpr hp,
        hall (c := ⟨i, u⟩) |>.mpr ⟨hu, h⟩, Option.none_or, Option.none_or]

theorem IsResult.exists_hasShape (h : IsResult units d kind value i) :
    ∃ u, HasShape units d kind i u := by
  cases h with
  | matching h =>
    obtain ⟨⟨u, hu, -⟩, -⟩ := h
    exact ⟨u, hu⟩
  | prime _ h =>
    obtain ⟨⟨u, hu, -⟩, -⟩ := h
    exact ⟨u, hu⟩
  | first _ _ h => exact h.1

theorem exists_isResult_iff :
    (∃ i, IsResult units d kind value i) ↔ ∃ i u, HasShape units d kind i u := by
  constructor
  · rintro ⟨i, h⟩
    exact ⟨i, h.exists_hasShape⟩
  · rintro ⟨i, u, hu⟩
    rcases hr : resultUnit? (candidates units) d kind value with _ | o
    · exfalso
      unfold resultUnit? at hr
      rw [pickResult_eq, Option.map_eq_none_iff, Option.or_eq_none_iff] at hr
      have := find?_candidatesOf_eq_none (p := fun _ => true) |>.mp hr.2 i u hu
      simp at this
    · obtain ⟨k, -, hk⟩ := resultUnit?_eq_some_iff.mp hr
      exact ⟨k, hk⟩

/-! ### Entries -/

theorem toOption_eq_some_iff {x : Except ε α} : x.toOption = some a ↔ x = .ok a := by
  cases x <;> simp [Except.toOption]

theorem product?_eq_some_iff :
    product? (candidates units) l r = some o ↔
      ∃ d, Dimension.IsSum l.unit.dimension.value r.unit.dimension.value d ∧
        (d = .none ∧ o = ⟨.product, .unit l.place, .unit r.place, .number l.unit.kind⟩ ∨
          d ≠ .none ∧ ∃ i, IsResult units d l.unit.kind
            (l.unit.factor.value.mul r.unit.factor.value) i ∧
            o = ⟨.product, .unit l.place, .unit r.place, .unit i⟩) := by
  unfold product?
  simp only [Option.bind_eq_bind, Option.bind_eq_some_iff, toOption_eq_some_iff,
    Dimension.mul_eq_ok_iff]
  constructor
  · rintro ⟨d, hd, h⟩
    refine ⟨d, hd, ?_⟩
    split_ifs at h with hn
    · obtain ⟨_, hr, ho⟩ := Option.bind_eq_some_iff.mp h
      cases hr
      exact .inl ⟨Dimension.isNone_iff.mp hn, (Option.some.inj ho).symm⟩
    · obtain ⟨_, hr, ho⟩ := Option.bind_eq_some_iff.mp h
      obtain ⟨i, rfl, hi⟩ := resultUnit?_eq_some_iff.mp hr
      exact .inr ⟨mt Dimension.isNone_iff.mpr hn, i, hi, (Option.some.inj ho).symm⟩
  · rintro ⟨d, hd, ⟨hn, rfl⟩ | ⟨hn, i, hi, rfl⟩⟩
    · refine ⟨d, hd, ?_⟩
      rw [if_pos (Dimension.isNone_iff.mpr hn)]
      rfl
    · refine ⟨d, hd, ?_⟩
      rw [if_neg (mt Dimension.isNone_iff.mp hn), resultUnit?_eq_some_iff.mpr ⟨i, rfl, hi⟩]
      rfl

theorem quotient?_eq_some_iff :
    quotient? (candidates units) l r = some o ↔
      l.unit.family ≠ r.unit.family ∧
        ∃ d, Dimension.IsDifference l.unit.dimension.value r.unit.dimension.value d ∧ d ≠ .none ∧
          ∃ i, IsResult units d l.unit.kind (l.unit.factor.value.div r.unit.factor.value) i ∧
            o = ⟨.quotient, .unit l.place, .unit r.place, .unit i⟩ := by
  unfold quotient?
  simp only [Option.bind_eq_bind, Option.bind_eq_some_iff, toOption_eq_some_iff,
    Dimension.div_eq_ok_iff]
  constructor
  · rintro ⟨d, hd, h⟩
    split_ifs at h with hc
    simp only [Bool.or_eq_true, decide_eq_true_eq, not_or, Bool.not_eq_true,
      Dimension.isNone_eq_false_iff] at hc
    obtain ⟨_, hr, ho⟩ := Option.bind_eq_some_iff.mp h
    obtain ⟨i, rfl, hi⟩ := resultUnit?_eq_some_iff.mp hr
    exact ⟨hc.1, d, hd, hc.2, i, hi, (Option.some.inj ho).symm⟩
  · rintro ⟨hf, d, hd, hn, i, hi, rfl⟩
    refine ⟨d, hd, ?_⟩
    have hr := resultUnit?_eq_some_iff.mpr ⟨i, rfl, hi⟩
    simp [hf, Dimension.isNone_eq_false_iff.mpr hn, hr]

theorem reciprocal?_eq_some_iff :
    reciprocal? (candidates units) r = some o ↔
      ∃ d, Dimension.IsNegation r.unit.dimension.value d ∧
        ∃ i, IsResult units d r.unit.kind (r.unit.kind.one.div r.unit.factor.value) i ∧
          o = ⟨.quotient, .number r.unit.kind, .unit r.place, .unit i⟩ := by
  unfold reciprocal?
  simp only [Option.bind_eq_bind, Option.bind_eq_some_iff, toOption_eq_some_iff,
    Dimension.inv_eq_ok_iff, resultUnit?_eq_some_iff, Option.some.injEq]
  refine exists_congr fun d => and_congr_right fun _ => ?_
  constructor
  · rintro ⟨_, ⟨i, rfl, hi⟩, rfl⟩
    exact ⟨i, hi, rfl⟩
  · rintro ⟨i, hi, rfl⟩
    exact ⟨_, ⟨i, rfl, hi⟩, rfl⟩

theorem mem_operationTable_iff :
    o ∈ operationTable units ↔
      (∃ l ∈ candidates units, ∃ r ∈ candidates units, l.unit.kind = r.unit.kind ∧
        (product? (candidates units) l r = some o ∨ quotient? (candidates units) l r = some o)) ∨
      ∃ r ∈ candidates units, reciprocal? (candidates units) r = some o := by
  unfold operationTable pairOperations
  simp only [mem_append, mem_flatMap, mem_filterMap, mem_ite_nil_right,
    Option.mem_toList]

/-- **The table holds the operations described, and no others.** -/
theorem mem_operationTable : o ∈ operationTable units ↔ Entry units o := by
  rw [mem_operationTable_iff]
  constructor
  · rintro (⟨l, hl, r, hr, hk, h | h⟩ | ⟨r, hr, h⟩)
    · rw [mem_candidates] at hl hr
      obtain ⟨d, hd, ⟨rfl, rfl⟩ | ⟨hn, i, hi, rfl⟩⟩ := product?_eq_some_iff.mp h
      · exact .productNumber hl hr hk hd
      · exact .productUnit hl hr hk hd hn hi
    · rw [mem_candidates] at hl hr
      obtain ⟨hf, d, hd, hn, i, hi, rfl⟩ := quotient?_eq_some_iff.mp h
      exact .quotient hl hr hk hf hd hn hi
    · rw [mem_candidates] at hr
      obtain ⟨d, hd, i, hi, rfl⟩ := reciprocal?_eq_some_iff.mp h
      exact .reciprocal hr hd hi
  · intro h
    cases h with
    | @productNumber l r u v hl hr hk hd =>
      exact .inl ⟨⟨l, u⟩, mem_candidates.mpr hl, ⟨r, v⟩, mem_candidates.mpr hr, hk,
        .inl (product?_eq_some_iff.mpr ⟨_, hd, .inl ⟨rfl, rfl⟩⟩)⟩
    | @productUnit l r i u v d hl hr hk hd hn hi =>
      exact .inl ⟨⟨l, u⟩, mem_candidates.mpr hl, ⟨r, v⟩, mem_candidates.mpr hr, hk,
        .inl (product?_eq_some_iff.mpr ⟨d, hd, .inr ⟨hn, i, hi, rfl⟩⟩)⟩
    | @quotient l r i u v d hl hr hk hf hd hn hi =>
      exact .inl ⟨⟨l, u⟩, mem_candidates.mpr hl, ⟨r, v⟩, mem_candidates.mpr hr, hk,
        .inr (quotient?_eq_some_iff.mpr ⟨hf, d, hd, hn, i, hi, rfl⟩)⟩
    | @reciprocal r i v d hr hd hi =>
      exact .inr ⟨⟨r, v⟩, mem_candidates.mpr hr,
        reciprocal?_eq_some_iff.mpr ⟨d, hd, i, hi, rfl⟩⟩

/-! ### Kinds of operands -/

/-- The operand is a unit or a number of the kind. -/
def IsOfKind (units : List UnitEntry) (kind : NumericKind) : Operand → Prop
  | .unit i => ∃ u, units[i]? = some u ∧ u.kind = kind
  | .number k => k = kind

theorem TakesPart.isOfKind (h : TakesPart units i u) (hkind : u.kind = kind) :
    IsOfKind units kind (.unit i) :=
  ⟨u, h.1, hkind⟩

theorem IsResult.isOfKind (h : IsResult units d kind value i) : IsOfKind units kind (.unit i) := by
  obtain ⟨u, hshape⟩ := h.exists_hasShape
  exact hshape.1.isOfKind hshape.2.2

/-- **Operations are between operands of one kind**, and one of the sides is a unit. -/
theorem Entry.exists_kind (h : Entry units o) :
    ∃ kind i, (o.lhs = .unit i ∨ o.rhs = .unit i) ∧ IsOfKind units kind o.lhs ∧
      IsOfKind units kind o.rhs ∧ IsOfKind units kind o.result := by
  cases h with
  | productNumber hl hr hk _ =>
    exact ⟨_, _, .inl rfl, hl.isOfKind rfl, hr.isOfKind hk.symm, rfl⟩
  | productUnit hl hr hk _ _ hi =>
    exact ⟨_, _, .inl rfl, hl.isOfKind rfl, hr.isOfKind hk.symm, hi.isOfKind⟩
  | quotient hl hr hk _ _ _ hi =>
    exact ⟨_, _, .inl rfl, hl.isOfKind rfl, hr.isOfKind hk.symm, hi.isOfKind⟩
  | reciprocal hr _ hi => exact ⟨_, _, .inr rfl, rfl, hr.isOfKind rfl, hi.isOfKind⟩

/-! ### No operation twice -/

theorem joins_iff {o : Operation} :
    o.joins op lhs rhs = true ↔ o.operator = op ∧ o.lhs = lhs ∧ o.rhs = rhs := by
  simp [Operation.joins, and_assoc]

/-- Two operations join different operands, or the same by different operators. -/
def Apart (a b : Operation) : Prop :=
  ¬ (a.operator = b.operator ∧ a.lhs = b.lhs ∧ a.rhs = b.rhs)

theorem sides_of_mem_pairOperations (h : o ∈ pairOperations (candidates units) l r) :
    o.lhs = .unit l.place ∧ o.rhs = .unit r.place := by
  unfold pairOperations at h
  simp only [mem_ite_nil_right, mem_append, Option.mem_toList] at h
  obtain ⟨-, h | h⟩ := h
  · obtain ⟨d, -, ⟨-, rfl⟩ | ⟨-, i, -, rfl⟩⟩ := product?_eq_some_iff.mp h <;> exact ⟨rfl, rfl⟩
  · obtain ⟨-, d, -, -, i, -, rfl⟩ := quotient?_eq_some_iff.mp h
    exact ⟨rfl, rfl⟩

theorem pairwise_pairOperations (l r : Candidate) :
    (pairOperations (candidates units) l r).Pairwise Apart := by
  unfold pairOperations
  split_ifs
  · refine pairwise_append.mpr ⟨?_, ?_, ?_⟩
    · cases product? (candidates units) l r <;> simp
    · cases quotient? (candidates units) l r <;> simp
    · intro a ha b hb h
      rw [Option.mem_toList] at ha hb
      obtain ⟨-, d, -, -, i, -, rfl⟩ := quotient?_eq_some_iff.mp hb
      obtain ⟨d', -, ⟨-, rfl⟩ | ⟨-, i', -, rfl⟩⟩ := product?_eq_some_iff.mp ha <;>
        cases h.1
  · exact List.Pairwise.nil

theorem pairwise_operationTable : (operationTable units).Pairwise Apart := by
  refine pairwise_append.mpr ⟨?_, ?_, ?_⟩
  · refine pairwise_flatMap.mpr ⟨fun l _ => ?_, ?_⟩
    · refine pairwise_flatMap.mpr ⟨fun r _ => pairwise_pairOperations l r, ?_⟩
      refine pairwise_candidates.imp fun {r r'} hlt a ha b hb h => ?_
      have h' := h.2.2
      rw [(sides_of_mem_pairOperations ha).2, (sides_of_mem_pairOperations hb).2] at h'
      exact Nat.ne_of_lt hlt (Operand.unit.inj h')
    · refine pairwise_candidates.imp fun {l l'} hlt a ha b hb h => ?_
      obtain ⟨r, -, ha⟩ := mem_flatMap.mp ha
      obtain ⟨r', -, hb⟩ := mem_flatMap.mp hb
      have h' := h.2.1
      rw [(sides_of_mem_pairOperations ha).1, (sides_of_mem_pairOperations hb).1] at h'
      exact Nat.ne_of_lt hlt (Operand.unit.inj h')
  · rw [pairwise_filterMap]
    refine pairwise_candidates.imp fun {r r'} hlt a ha b hb h => ?_
    obtain ⟨d, -, i, -, rfl⟩ := reciprocal?_eq_some_iff.mp ha
    obtain ⟨d', -, i', -, rfl⟩ := reciprocal?_eq_some_iff.mp hb
    exact Nat.ne_of_lt hlt (Operand.unit.inj h.2.2)
  · intro a ha b hb h
    obtain ⟨l, -, ha⟩ := mem_flatMap.mp ha
    obtain ⟨r, -, ha⟩ := mem_flatMap.mp ha
    obtain ⟨r', -, hb⟩ := mem_filterMap.mp hb
    obtain ⟨d, -, i, -, rfl⟩ := reciprocal?_eq_some_iff.mp hb
    have h' := h.2.1
    rw [(sides_of_mem_pairOperations ha).1] at h'
    cases h'

/-- Among operations that are apart, an operator and its operands occur once or never. -/
theorem countP_joins_eq_one_iff {operations : List Operation} (h : operations.Pairwise Apart) :
    operations.countP (Operation.joins op lhs rhs) = 1 ↔
      ∃ result, (⟨op, lhs, rhs, result⟩ : Operation) ∈ operations := by
  constructor
  · intro hc
    have hpos : 0 < operations.countP (Operation.joins op lhs rhs) := by omega
    obtain ⟨o, ho, hj⟩ := countP_pos_iff.mp hpos
    obtain ⟨rfl, rfl, rfl⟩ := joins_iff.mp hj
    exact ⟨o.result, ho⟩
  · rintro ⟨result, ho⟩
    induction operations with
    | nil => cases ho
    | cons a operations ih =>
      obtain ⟨ha, h⟩ := pairwise_cons.mp h
      rcases mem_cons.mp ho with rfl | ho
      · have hrest : operations.countP (Operation.joins op lhs rhs) = 0 := by
          refine countP_eq_zero.mpr fun b hb hj => ha b hb ?_
          obtain ⟨h₁, h₂, h₃⟩ := joins_iff.mp hj
          exact ⟨h₁.symm, h₂.symm, h₃.symm⟩
        have hj : (⟨op, lhs, rhs, result⟩ : Operation).joins op lhs rhs = true :=
          joins_iff.mpr ⟨rfl, rfl, rfl⟩
        rw [countP_cons_of_pos hj, hrest]
      · have hne : ¬ a.joins op lhs rhs = true := fun hj => ha _ ho (joins_iff.mp hj)
        rw [countP_cons_of_neg hne, ih h ho]

/-! ### The table -/

/-- **The table of operations is the one described**: complete, without repetition and
without anything else. -/
theorem isOperationTable_operationTable (units : List UnitEntry) :
    IsOperationTable units (operationTable units) := by
  refine ⟨fun l r u v hl hr hk => ?_, fun l r u v hl hr hk => ?_, fun r v hr => ?_,
    fun o => mem_operationTable.mp⟩
  · rw [countP_joins_eq_one_iff pairwise_operationTable]
    simp only [mem_operationTable]
    constructor
    · rintro ⟨result, h⟩
      cases h with
      | productNumber hl' hr' _ hd =>
        cases hl'.unique hl
        cases hr'.unique hr
        exact ⟨.none, hd, .inl rfl⟩
      | productUnit hl' hr' _ hd _ hi =>
        cases hl'.unique hl
        cases hr'.unique hr
        exact ⟨_, hd, .inr (exists_isResult_iff.mp ⟨_, hi⟩)⟩
    · rintro ⟨d, hd, h⟩
      by_cases hn : d = .none
      · subst hn
        exact ⟨_, .productNumber hl hr hk hd⟩
      · obtain ⟨i, hi⟩ := exists_isResult_iff.mpr (h.resolve_left hn)
        exact ⟨_, .productUnit hl hr hk hd hn hi⟩
  · rw [countP_joins_eq_one_iff pairwise_operationTable]
    simp only [mem_operationTable]
    constructor
    · rintro ⟨result, h⟩
      cases h with
      | quotient hl' hr' _ hf hd hn hi =>
        cases hl'.unique hl
        cases hr'.unique hr
        exact ⟨hf, _, hd, hn, exists_isResult_iff.mp ⟨_, hi⟩⟩
    · rintro ⟨hf, d, hd, hn, h⟩
      obtain ⟨i, hi⟩ := exists_isResult_iff.mpr h
      exact ⟨_, .quotient hl hr hk hf hd hn hi⟩
  · rw [countP_joins_eq_one_iff pairwise_operationTable]
    simp only [mem_operationTable]
    constructor
    · rintro ⟨result, h⟩
      generalize hn : Operand.number v.kind = lhs at h
      cases h with
      | quotient => cases hn
      | reciprocal hr' hd hi =>
        cases hr'.unique hr
        exact ⟨_, hd, exists_isResult_iff.mp ⟨_, hi⟩⟩
    · rintro ⟨d, hd, h⟩
      obtain ⟨i, hi⟩ := exists_isResult_iff.mpr h
      exact ⟨_, .reciprocal hr hd hi⟩

/-! ### The units of a resolved model -/

/-- What the operations of a unit depend on: not its texts, nor its relatives. -/
def core (u : UnitEntry) : UnitEntry :=
  { name := ""
    origin := .restored ""
    kind := u.kind
    dimension := ⟨u.dimension.value, ""⟩
    factor := ⟨true, u.factor.value, ""⟩
    family := u.family
    prime := u.prime
    valid := u.valid }

/-- What the operations of a candidate depend on. -/
def Candidate.core (c : Candidate) : Candidate := ⟨c.place, Model.core c.unit⟩

theorem candidates_map_core : candidates (units.map core) = (candidates units).map .core := by
  unfold candidates
  rw [zipIdx_map, filterMap_map, map_filterMap]
  refine filterMap_congr ?_
  rintro ⟨u, i⟩ -
  exact (apply_ite (Option.map Candidate.core)
    ((u.valid && u.family.isSome && !u.dimension.value.isNone) = true) (some ⟨i, u⟩) none).symm

theorem resultUnit?_map_core (cs : List Candidate) (value : Except NumeralError Numeral) :
    resultUnit? (cs.map .core) d kind value = resultUnit? cs d kind value := by
  have hof : candidatesOf (cs.map .core) d kind = (candidatesOf cs d kind).map .core := by
    unfold candidatesOf
    rw [filter_map]
    rfl
  unfold resultUnit?
  rw [hof, pickResult_eq, pickResult_eq, find?_map, find?_map, find?_map,
    ← Option.map_or, ← Option.map_or, Option.map_map]
  rfl

theorem pairOperations_map_core (cs : List Candidate) (l r : Candidate) :
    pairOperations (cs.map .core) l.core r.core = pairOperations cs l r := by
  unfold pairOperations product? quotient?
  simp only [resultUnit?_map_core]
  rfl

theorem reciprocal?_map_core (cs : List Candidate) (r : Candidate) :
    reciprocal? (cs.map .core) r.core = reciprocal? cs r := by
  unfold reciprocal?
  simp only [resultUnit?_map_core]
  rfl

theorem operationTable_map_core : operationTable (units.map core) = operationTable units := by
  unfold operationTable
  simp only [candidates_map_core, flatMap_map, filterMap_map, pairOperations_map_core]
  congr 1
  exact filterMap_congr fun r _ => reciprocal?_map_core _ r

/-- **The table depends on nothing else**, not on earlier lists of operations in particular. -/
theorem operationTable_congr (h : us.map core = vs.map core) :
    operationTable us = operationTable vs := by
  rw [← operationTable_map_core, h, operationTable_map_core]

theorem map_core_resolveOperations (m : Model) :
    m.resolveOperations.units.map core = m.units.map core := by
  refine map_mapIdx_eq ?_ m.units
  exact fun _ _ => rfl

/-- **Each unit lists the operations it takes part in**, in order. -/
def ListsOperations (m : Model) : Prop :=
  ∀ (i : Nat) (u : UnitEntry), m.units[i]? = some u → u.operations.Pairwise (· < ·) ∧
    ∀ k, k ∈ u.operations ↔ ∃ o : Operation, m.operations[k]? = some o ∧
      (o.lhs = .unit i ∨ o.rhs = .unit i ∨ o.result = .unit i)

theorem involves_iff {o : Operation} :
    o.involves i = true ↔ o.lhs = .unit i ∨ o.rhs = .unit i ∨ o.result = .unit i := by
  unfold Operation.involves Operation.operands
  rw [contains_iff_mem]
  simp only [mem_cons, not_mem_nil, or_false]
  rw [eq_comm, @eq_comm _ (Operand.unit i) o.rhs, @eq_comm _ (Operand.unit i) o.result]

theorem listsOperations_resolveOperations (m : Model) : m.resolveOperations.ListsOperations := by
  intro i u hu
  unfold resolveOperations at hu ⊢
  simp only [getElem?_mapIdx, Option.map_eq_some_iff] at hu
  obtain ⟨v, -, rfl⟩ := hu
  have hp := pairwise_places (operationTable m.units) (·.involves i)
  refine ⟨hp, fun k => ?_⟩
  simp only [mem_places, involves_iff]

/-- The operations of a resolved model are those of its own units. -/
theorem isOperationTable_resolveOperations (m : Model) :
    IsOperationTable m.resolveOperations.units m.resolveOperations.operations := by
  have h : m.resolveOperations.operations = operationTable m.resolveOperations.units :=
    (operationTable_congr (map_core_resolveOperations m)).symm
  rw [h]
  exact isOperationTable_operationTable _

end Model

end Quantity
