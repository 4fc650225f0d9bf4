import Quantity.Proofs.Model.SoundFamilies
import Quantity.Proofs.Number.Binary

/-!
# Operations that are turned round

Products and quotients are searched for one by one, each with its own conditions. Here the
operations of a model are compared with each other: factors commute, a quotient is undone by a
product, and two units with a plain number as their product are reciprocals of each other
(`Reversible`). A product is undone by dividing it by one of its factors, unless the two are in one
family; and they never are, since units of one family have one dimension
(`Reached.reversible_operations`).
-/

namespace Quantity

/-! ### Products of numerals -/

namespace Number.Decimal

theorem mul?_comm (a b : Decimal) : a.mul? b = b.mul? a := by
  unfold mul?
  rw [Bool.and_comm (decide (a.significand < twoPow 32)), Nat.add_comm a.places,
    Bool.or_comm a.isZero, Nat.mul_comm a.significand, bne_comm]

end Number.Decimal

/-- **Multiplication commutes**; which kind is named first when two do not combine makes no
difference. -/
theorem Numeral.toOption_mul_comm (a b : Numeral) : (a.mul b).toOption = (b.mul a).toOption := by
  cases a <;> cases b <;>
    simp only [Numeral.mul, Numeral.combine, Number.float_mul_comm, Number.float32_mul_comm,
      Number.Decimal.mul?_comm, Except.toOption]

namespace Model

open Elaborate

section Results

variable {units : List UnitEntry} {d : Dimension} {kind : NumericKind}
  {value value' : Except NumeralError Numeral}

theorem matches_congr (h : value.toOption = value'.toOption) :
    Matches value u ↔ Matches value' u := by
  simp only [Matches, ← toOption_eq_some_iff, h]

/-- A result depends on the value of an operation only, not on why it has none. -/
theorem IsResult.congr (h : value.toOption = value'.toOption) (hi : IsResult units d kind value i) :
    IsResult units d kind value' i := by
  cases hi with
  | matching hi =>
    simp only [matches_congr h] at hi
    exact .matching hi
  | prime hm hi =>
    simp only [matches_congr h] at hm
    exact .prime hm hi
  | first hm hp hi =>
    simp only [matches_congr h] at hm
    exact .first hm hp hi

end Results

/-! ### Operations of a model -/

def Has (m : Model) (op : Operator) (lhs rhs result : Operand) : Prop :=
  (⟨op, lhs, rhs, result⟩ : Operation) ∈ m.operations

/-- The model has an operation that results in a unit with the dimension and the kind of the one at
place `i`. -/
def HasLike (m : Model) (op : Operator) (lhs rhs : Operand) (i : Nat) : Prop :=
  ∃ j u v, m.Has op lhs rhs (.unit j) ∧ m.units[i]? = some u ∧ m.units[j]? = some v ∧
    v.dimension.value = u.dimension.value ∧ v.kind = u.kind

/-- The units at two places are in one family. -/
def InOneFamily (m : Model) (i j : Nat) : Prop :=
  ∃ u v, m.units[i]? = some u ∧ m.units[j]? = some v ∧ u.family = v.family

/-- **Operations that are turned round are operations.** -/
structure Reversible (m : Model) : Prop where
  /-- Factors commute. -/
  commute : ∀ l r x, m.Has .product l r x → m.Has .product r l x
  /-- A quotient times the divisor is what was divided. -/
  multiply : ∀ l r x, m.Has .quotient (.unit l) r x → m.HasLike .product x r l
  /-- The product of two units is a number exactly if the reciprocal of one has the dimension of the
  other. -/
  reciprocal : ∀ l r u v, m.units[l]? = some u → m.units[r]? = some v → u.valid = true →
    v.valid = true → u.kind = v.kind →
      ((∃ kind, m.Has .product (.unit l) (.unit r) (.number kind)) ↔
        ∃ kind x w, m.Has .quotient (.number kind) (.unit r) (.unit x) ∧ m.units[x]? = some w ∧
          w.dimension.value = u.dimension.value)

/-- A product by one of its factors is the other one. -/
def DividesProducts (m : Model) : Prop :=
  ∀ l r x, m.Has .product (.unit l) (.unit r) (.unit x) →
    m.HasLike .quotient (.unit x) (.unit r) l ∧ m.HasLike .quotient (.unit x) (.unit l) r

theorem hasLike_of_hasShape {m : Model} (hop : m.Has op lhs rhs (.unit j))
    (hu : TakesPart m.units i u) (hv : HasShape m.units u.dimension.value u.kind j v) :
    m.HasLike op lhs rhs i :=
  ⟨j, u, v, hop, hu.1, hv.1.1, hv.2.1, hv.2.2⟩

section Settled

variable {m : Model} (h : m.Settled)
include h

theorem Settled.has_iff : m.Has op lhs rhs result ↔ Entry m.units ⟨op, lhs, rhs, result⟩ := by
  rw [Has, ← h.linked.operationTable_eq, mem_operationTable]

theorem Settled.takesPart (hu : m.units[i]? = some u) (hvalid : u.valid = true)
    (hd : u.dimension.value ≠ .none) : TakesPart m.units i u := by
  refine ⟨hu, hvalid, ?_, hd⟩
  rw [← Option.isSome_iff_ne_none, h.units u (List.mem_of_getElem? hu), hvalid]

theorem Settled.reversible : m.Reversible := by
  constructor
  case commute =>
    intro l r x hproduct
    rw [h.has_iff] at hproduct ⊢
    cases hproduct with
    | productNumber hl hr hk hd =>
      rw [hk]
      exact .productNumber hr hl hk.symm hd.comm
    | productUnit hl hr hk hd hn hi =>
      refine .productUnit hr hl hk.symm hd.comm hn ?_
      rw [← hk]
      exact hi.congr (Numeral.toOption_mul_comm _ _)
  case multiply =>
    intro l r x hquotient
    rw [h.has_iff] at hquotient
    cases hquotient with
    | quotient hl hr hk _ hd hn hi =>
      obtain ⟨w, hx, hwd, hwk⟩ := hi.exists_hasShape
      -- the unit that was divided has the dimension of the product, so there is one
      obtain ⟨j, hj⟩ := exists_isResult_iff.mpr ⟨_, _, hl, rfl, hwk.symm⟩
      obtain ⟨v, hv⟩ := hj.exists_hasShape
      refine hasLike_of_hasShape (h.has_iff.mpr (.productUnit hx hr (hwk.trans hk) ?_ hl.2.2.2 hj))
        hl (hwk ▸ hv)
      exact hwd ▸ hd.sum
  case reciprocal =>
    intro l r u v hu hv huvalid hvvalid hk
    constructor
    · rintro ⟨kind, hproduct⟩
      rw [h.has_iff] at hproduct
      cases hproduct with
      | productNumber hl hr _ hd =>
        cases Option.some.inj (hl.1.symm.trans hu)
        cases Option.some.inj (hr.1.symm.trans hv)
        obtain ⟨x, hx⟩ := exists_isResult_iff.mpr ⟨l, u, hl, rfl, hk⟩
        obtain ⟨w, hw, hwd, -⟩ := hx.exists_hasShape
        have hn := Dimension.isSum_none_iff.mp hd
        exact ⟨_, x, w, h.has_iff.mpr (.reciprocal hr hn hx), hw.1, hwd⟩
    · rintro ⟨kind, x, w, hquotient, hw, hwd⟩
      rw [h.has_iff] at hquotient
      cases hquotient with
      | reciprocal hr hd hi =>
        cases Option.some.inj (hr.1.symm.trans hv)
        obtain ⟨w', hx, hxd, -⟩ := hi.exists_hasShape
        cases Option.some.inj (hx.1.symm.trans hw)
        -- the reciprocal has a dimension, so the other unit takes part in operations as well
        have hl : TakesPart m.units l u := h.takesPart hu huvalid (hwd ▸ hx.2.2.2)
        rw [← hxd, hwd] at hd
        exact ⟨_, h.has_iff.mpr (.productNumber hl hr hk (Dimension.isSum_none_iff.mpr hd))⟩

/-- A product by its right factor is the left one, unless it is in the family of the right one. -/
theorem Settled.divides_iff (hproduct : m.Has .product (.unit l) (.unit r) (.unit x)) :
    m.HasLike .quotient (.unit x) (.unit r) l ↔ ¬ m.InOneFamily x r := by
  rw [h.has_iff] at hproduct
  cases hproduct with
  | productUnit hl hr hk hd hn hi =>
    obtain ⟨w, hx, hwd, hwk⟩ := hi.exists_hasShape
    constructor
    · rintro ⟨j, _, _, hquotient, -⟩ ⟨w', v', hw', hv', hf⟩
      rw [h.has_iff] at hquotient
      cases hquotient with
      | quotient hw hv _ hne =>
        cases Option.some.inj (hw.1.symm.trans hw')
        cases Option.some.inj (hv.1.symm.trans hv')
        exact hne hf
    · intro hne
      have hf := fun hf => hne ⟨_, _, hx.1, hr.1, hf⟩
      obtain ⟨j, hj⟩ := exists_isResult_iff.mpr ⟨l, _, hl, rfl, hwk.symm⟩
      obtain ⟨v, hv⟩ := hj.exists_hasShape
      have hquotient := hd.difference
      rw [← hwd] at hquotient
      exact hasLike_of_hasShape
        (h.has_iff.mpr (.quotient hx hr (hwk.trans hk) hf hquotient hl.2.2.2 hj)) hl (hwk ▸ hv)

theorem Settled.not_inOneFamily (hsorted : m.Sorted)
    (hproduct : m.Has .product (.unit l) (.unit r) (.unit x)) : ¬ m.InOneFamily x r := by
  rintro ⟨w', v', hw', hv', hf⟩
  rw [h.has_iff] at hproduct
  cases hproduct with
  | productUnit hl hr hk hd hn hi =>
    obtain ⟨w, hx, hwd, -⟩ := hi.exists_hasShape
    cases Option.some.inj (hx.1.symm.trans hw')
    cases Option.some.inj (hr.1.symm.trans hv')
    obtain ⟨f, hwf⟩ := Option.ne_none_iff_exists'.mp hx.2.2.1
    have hsame := hsorted.dimension _ (List.mem_of_getElem? hx.1) _ (List.mem_of_getElem? hr.1) f
      hwf (hf ▸ hwf)
    rw [← hwd, hsame] at hd
    exact hl.2.2.2 hd.eq_none

theorem Settled.dividesProducts (hsorted : m.Sorted) : m.DividesProducts := by
  intro l r x hproduct
  have hswapped := h.reversible.commute _ _ _ hproduct
  exact ⟨(h.divides_iff hproduct).mpr (h.not_inOneFamily hsorted hproduct),
    (h.divides_iff hswapped).mpr (h.not_inOneFamily hsorted hswapped)⟩

end Settled

/-! ### After any number of texts -/

/-- **Operations are turned round.** After any number of texts factors commute, quotients are undone
by products, products without dimension belong to reciprocals, and a product is undone by dividing
it by either factor. -/
theorem Reached.reversible_operations {m : Model} (h : m.Reached) :
    m.Reversible ∧ m.DividesProducts :=
  ⟨h.settled.reversible, h.settled.dividesProducts h.sorted⟩

def metersAndSeconds : String := "unit Meter \"m\" = <Length>; unit Second \"s\" = <Time>;"

/-- Units that are computed from meters and seconds. -/
def rates : String := "unit Speed \"v\" = Meter / Second; unit Hertz \"Hz\" = 1 / Second;"

/-- Meters are a speed times seconds, so a meter by a second is a speed and a meter by a speed is a
second; and seconds times hertz are a number. -/
theorem Reached.reversible_operations_rates :
    ∃ c d, compile metersAndSeconds { kind := .decimal } = .ok c ∧
      c.model.extend rates { kind := .decimal } = .ok d ∧ d.model.Reached ∧
      d.model.Has .product (.unit 2) (.unit 1) (.unit 0) ∧
      d.model.Has .product (.unit 1) (.unit 3) (.number .decimal) ∧
      d.model.Reversible ∧ d.model.DividesProducts := by
  obtain ⟨c, hc, d, hd, hproduct, hnumber⟩ :
      ∃ c, compile metersAndSeconds { kind := .decimal } = .ok c ∧
        ∃ d, c.model.extend rates { kind := .decimal } = .ok d ∧
          ⟨.product, .unit 2, .unit 1, .unit 0⟩ ∈ d.model.operations ∧
          ⟨.product, .unit 1, .unit 3, .number .decimal⟩ ∈ d.model.operations := by
    decide +kernel
  have hreached := Reached.extend (.extend .empty hc) hd
  exact ⟨_, _, hc, hd, hreached, hproduct, hnumber, hreached.reversible_operations⟩

end Model

end Quantity
