import Quantity.Proofs.Model.Frame

/-!
# Operations of extended models

All operations are worked out again when a model is extended, and late units compete for their
results: one that has the right factor, or is a prime, can take the place of an earlier unit. Nothing
else changes between earlier units. `Entry.append` says that none of their operations is lost, and
`Entry.of_append` that a new one has a late result.
-/

namespace Quantity

open List

/-- The operand is a unit, and its place is from `low` on and below `high`. -/
def Operand.IsUnitIn (low high : Nat) (o : Operand) : Prop := ∃ i, o = .unit i ∧ low ≤ i ∧ i < high

namespace Model

/-- The operand is a unit that was added last. -/
def IsLateUnit (m : Model) (o : Operand) : Prop := o.IsUnitIn m.lateUnits m.units.length

/-! ### Units with late ones behind them -/

section Append

variable {us late : List UnitEntry} {d : Dimension} {kind : NumericKind}
  {value : Except NumeralError Numeral} {i j : Nat} {u : UnitEntry} {o : Operation}

theorem TakesPart.lt (h : TakesPart us i u) : i < us.length :=
  lt_of_getElem? h.1

theorem takesPart_append (hi : i < us.length) : TakesPart (us ++ late) i u ↔ TakesPart us i u := by
  unfold TakesPart
  rw [getElem?_append_left hi]

theorem hasShape_append (hi : i < us.length) :
    HasShape (us ++ late) d kind i u ↔ HasShape us d kind i u :=
  and_congr_left fun _ => takesPart_append hi

theorem HasShape.append (h : HasShape us d kind i u) (late : List UnitEntry) :
    HasShape (us ++ late) d kind i u :=
  (hasShape_append h.1.lt).mpr h

/-- The first place is the first one of fewer places, if it is among them. -/
theorem IsFirst.restrict {P Q : Nat → UnitEntry → Prop} (h : IsFirst P i)
    (hi : ∀ u, P i u → Q i u) (hQ : ∀ j v, Q j v → P j v) : IsFirst Q i := by
  obtain ⟨⟨u, hu⟩, hfirst⟩ := h
  exact ⟨⟨u, hi u hu⟩, fun j v hv => hfirst j v (hQ j v hv)⟩

theorem IsResult.of_append (h : IsResult (us ++ late) d kind value i) (hi : i < us.length) :
    IsResult us d kind value i := by
  cases h with
  | matching h =>
    refine .matching (h.restrict (fun u hu => ?_) fun j v hv => ?_)
    · exact ⟨(hasShape_append hi).mp hu.1, hu.2⟩
    · exact ⟨hv.1.append late, hv.2⟩
  | prime hm h =>
    refine .prime (fun j v hv => hm j v (hv.append late)) (h.restrict (fun u hu => ?_) fun j v hv => ?_)
    · exact ⟨(hasShape_append hi).mp hu.1, hu.2⟩
    · exact ⟨hv.1.append late, hv.2⟩
  | first hm hp h =>
    refine .first (fun j v hv => hm j v (hv.append late)) (fun j v hv => hp j v (hv.append late)) ?_
    exact h.restrict (fun u hu => (hasShape_append hi).mp hu) fun j v hv => hv.append late

theorem IsResult.unique (h : IsResult us d kind value i) (h' : IsResult us d kind value j) :
    i = j := by
  have hi := resultUnit?_eq_some_iff.mpr ⟨i, rfl, h⟩
  have hj := resultUnit?_eq_some_iff.mpr ⟨j, rfl, h'⟩
  rw [hi] at hj
  exact Operand.unit.inj (Option.some.inj hj)

theorem IsResult.lt (h : IsResult us d kind value i) : i < us.length := by
  obtain ⟨u, hu⟩ := h.exists_hasShape
  exact hu.1.lt

theorem IsResult.cases_append (h : IsResult (us ++ late) d kind value i) :
    IsResult us d kind value i ∨ (Operand.unit i).IsUnitIn us.length (us ++ late).length := by
  by_cases hlt : i < us.length
  · exact .inl (h.of_append hlt)
  · exact .inr ⟨i, rfl, Nat.le_of_not_lt hlt, h.lt⟩

/-- **Late units can only take a result over**: it stays as it is, or is one of them. -/
theorem IsResult.append (h : IsResult us d kind value i) (late : List UnitEntry) :
    ∃ j, IsResult (us ++ late) d kind value j ∧
      (Operand.unit j = .unit i ∨ (Operand.unit j).IsUnitIn us.length (us ++ late).length) := by
  obtain ⟨k, u, hu⟩ := exists_isResult_iff.mp ⟨i, h⟩
  obtain ⟨j, hj⟩ : ∃ j, IsResult (us ++ late) d kind value j :=
    exists_isResult_iff.mpr ⟨k, u, hu.append late⟩
  refine ⟨j, hj, hj.cases_append.imp_left fun hearly => ?_⟩
  rw [hearly.unique h]

/-- **No operation is lost**, and its result is taken over by a late unit at most. -/
theorem Entry.append (h : Entry us o) (late : List UnitEntry) :
    ∃ result, Entry (us ++ late) { o with result } ∧
      (result = o.result ∨ result.IsUnitIn us.length (us ++ late).length) := by
  have hlift {i : Nat} {u : UnitEntry} (hu : TakesPart us i u) : TakesPart (us ++ late) i u :=
    (takesPart_append hu.lt).mpr hu
  -- the sides stay the same, and the result is looked for again
  cases h with
  | productNumber hl hr hk hd =>
    exact ⟨_, .productNumber (hlift hl) (hlift hr) hk hd, .inl rfl⟩
  | productUnit hl hr hk hd hn hi =>
    obtain ⟨j, hj, hresult⟩ := hi.append late
    exact ⟨_, .productUnit (hlift hl) (hlift hr) hk hd hn hj, hresult⟩
  | quotient hl hr hk hf hd hn hi =>
    obtain ⟨j, hj, hresult⟩ := hi.append late
    exact ⟨_, .quotient (hlift hl) (hlift hr) hk hf hd hn hj, hresult⟩
  | reciprocal hr hd hi =>
    obtain ⟨j, hj, hresult⟩ := hi.append late
    exact ⟨_, .reciprocal (hlift hr) hd hj, hresult⟩

/-- **An operation between earlier units is not new, unless its result is late.** -/
theorem Entry.of_append (h : Entry (us ++ late) o)
    (hl : ¬ o.lhs.IsUnitIn us.length (us ++ late).length)
    (hr : ¬ o.rhs.IsUnitIn us.length (us ++ late).length) :
    Entry us o ∨ o.result.IsUnitIn us.length (us ++ late).length := by
  have hearly {i : Nat} {u : UnitEntry} (hu : TakesPart (us ++ late) i u)
      (hnot : ¬ (Operand.unit i).IsUnitIn us.length (us ++ late).length) : TakesPart us i u := by
    refine (takesPart_append ?_).mp hu
    by_contra hle
    exact hnot ⟨i, rfl, Nat.le_of_not_lt hle, hu.lt⟩
  cases h with
  | productNumber hu hv hk hd => exact .inl (.productNumber (hearly hu hl) (hearly hv hr) hk hd)
  | productUnit hu hv hk hd hn hi =>
    exact hi.cases_append.imp_left (.productUnit (hearly hu hl) (hearly hv hr) hk hd hn)
  | quotient hu hv hk hf hd hn hi =>
    exact hi.cases_append.imp_left (.quotient (hearly hu hl) (hearly hv hr) hk hf hd hn)
  | reciprocal hv hd hi => exact hi.cases_append.imp_left (.reciprocal (hearly hv hr) hd)

end Append

/-! ### One extension -/

section Extend

variable {m : Model} {text : String} {options : Options} {c : Compilation}

/-- For operations, a settled model with late units behind it is what it was. -/
theorem Settled.exists_map_core (hm : m.Settled) (hc : m.extend text options = .ok c) :
    ∃ late, c.model.units.map core = m.units.map core ++ late := by
  refine ⟨(c.model.units.map core).drop m.units.length, ?_⟩
  have htake : (c.model.units.map core).take m.units.length = m.units.map core := by
    refine ext_getElem? fun i => ?_
    rw [getElem?_take, getElem?_map, getElem?_map]
    split_ifs with hi
    · obtain ⟨added, operations, hu, -⟩ := hm.exists_kept_unit hc (getElem?_eq_getElem hi)
      rw [hu, getElem?_eq_getElem hi]
      rfl
    · rw [getElem?_eq_none (Nat.le_of_not_lt hi)]
      rfl
  rw [← htake, take_append_drop]

theorem Settled.mem_operations_iff (hm : m.Settled) :
    o ∈ m.operations ↔ Entry (m.units.map core) o := by
  rw [← mem_operationTable, operationTable_map_core, hm.linked.operationTable_eq]

/-- **What an extension does to the operations of a model**: each of them is there afterwards, with
the same result or a late unit as its result; and whatever else there is between earlier units has a
late unit as its result. -/
theorem extend_operations (hm : m.Reached) (text : String) (options : Options) :
    ((∃ c, m.extend text options = .ok c) ↔ m.HasRoomFor text options) ∧
      ∀ c, m.extend text options = .ok c → c.model.lateUnits = m.units.length ∧
      (∀ o ∈ m.operations, ∃ result, { o with result } ∈ c.model.operations ∧
        (result = o.result ∨ c.model.IsLateUnit result)) ∧
      ∀ o ∈ c.model.operations, ¬ c.model.IsLateUnit o.lhs → ¬ c.model.IsLateUnit o.rhs →
        o ∉ m.operations → c.model.IsLateUnit o.result := by
  refine ⟨m.exists_extend_iff text options, fun c hc => ?_⟩
  obtain ⟨late, hunits⟩ := hm.settled.exists_map_core hc
  have hlate : c.model.IsLateUnit =
      Operand.IsUnitIn (m.units.map core).length (m.units.map core ++ late).length := by
    funext o
    rw [← hunits, length_map, length_map, IsLateUnit, (late_extend hc).1]
  have hbefore {o : Operation} := hm.settled.mem_operations_iff (o := o)
  have hafter {o : Operation} := (hm.settled.extend hc).mem_operations_iff (o := o)
  rw [hunits] at hafter
  refine ⟨(late_extend hc).1, fun o ho => ?_, fun o ho hl hr hnew => ?_⟩
  · obtain ⟨result, hentry, hresult⟩ := (hbefore.mp ho).append late
    exact ⟨result, hafter.mpr hentry, hlate ▸ hresult⟩
  · rw [hlate] at hl hr ⊢
    exact ((hafter.mp ho).of_append hl hr).resolve_left (mt hbefore.mpr hnew)

def areas : String := "unit Meter \"m\" = <Length>; unit SquareMeter \"m2\" = Meter * Meter;"

def moreAreas : String :=
  "unit CubicMeter \"m3\" = SquareMeter * Meter; unit Dioptre \"dpt\" = 1 / Meter;"

/-- Meters and square meters had no product, and meters by square meters were nothing. Afterwards
they are cubic meters and dioptres. -/
theorem extend_operations_moreAreas :
    ∃ c d, compile areas { kind := .decimal } = .ok c ∧ c.model.Reached ∧
      c.model.extend moreAreas { kind := .decimal } = .ok d ∧
      c.model.operations =
        [⟨.product, .unit 0, .unit 0, .unit 1⟩, ⟨.quotient, .unit 1, .unit 0, .unit 0⟩] ∧
      ⟨.product, .unit 0, .unit 1, .unit 2⟩ ∈ d.model.operations ∧
      ⟨.quotient, .unit 0, .unit 1, .unit 3⟩ ∈ d.model.operations ∧
      (∀ o ∈ c.model.operations, ∃ result, { o with result } ∈ d.model.operations ∧
        (result = o.result ∨ d.model.IsLateUnit result)) ∧
      ∀ o ∈ d.model.operations, ¬ d.model.IsLateUnit o.lhs → ¬ d.model.IsLateUnit o.rhs →
        o ∉ c.model.operations → d.model.IsLateUnit o.result := by
  obtain ⟨c, hc, d, hd, hbefore, hproduct, hquotient⟩ :
      ∃ c, compile areas { kind := .decimal } = .ok c ∧
        ∃ d, c.model.extend moreAreas { kind := .decimal } = .ok d ∧
          c.model.operations =
            [⟨.product, .unit 0, .unit 0, .unit 1⟩, ⟨.quotient, .unit 1, .unit 0, .unit 0⟩] ∧
          ⟨.product, .unit 0, .unit 1, .unit 2⟩ ∈ d.model.operations ∧
          ⟨.quotient, .unit 0, .unit 1, .unit 3⟩ ∈ d.model.operations := by
    decide +kernel
  have hreached : c.model.Reached := .extend .empty hc
  obtain ⟨-, hkept, hnew⟩ := (extend_operations hreached moreAreas { kind := .decimal }).2 d hd
  exact ⟨c, d, hc, hreached, hd, hbefore, hproduct, hquotient, hkept, hnew⟩

end Extend

end Model

end Quantity
