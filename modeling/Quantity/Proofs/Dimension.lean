import Quantity.Dimension
import Mathlib.Data.List.Basic

/-!
# Exponents of products and quotients

Dimensions are computed in small integers, and a result that does not fit is refused. Here
the results are told apart from the refusals by plain integer arithmetic: an operation gives
a dimension exactly if the sums, or the differences, of the exponents are its own, slot by
slot.
-/

namespace Quantity

theorem Magnitude.mem_all (m : Magnitude) : m ∈ Magnitude.all := by
  cases m <;> decide

namespace Dimension

/-- The exponents of `d` are the sums of those of `a` and `b`. -/
def IsSum (a b d : Dimension) : Prop :=
  ∀ m, (d.get m).toInt = (a.get m).toInt + (b.get m).toInt

/-- The exponents of `d` are the differences of those of `a` and `b`. -/
def IsDifference (a b d : Dimension) : Prop :=
  ∀ m, (d.get m).toInt = (a.get m).toInt - (b.get m).toInt

/-- The exponents of `d` are those of `a` with the other sign. -/
def IsNegation (a d : Dimension) : Prop := ∀ m, (d.get m).toInt = -(a.get m).toInt

theorem inRange_toInt (e : Int8) : InRange e.toInt := by
  have h₁ := e.le_toInt
  have h₂ := e.toInt_lt
  unfold InRange
  omega

theorem toInt_ofInt_of_inRange (h : InRange n) : (Int8.ofInt n).toInt = n := by
  obtain ⟨h₁, h₂⟩ := h
  exact Int8.toInt_ofInt_of_le (by omega) (by omega)

/-- **Exponents fit or are refused**: the dimension is the one with these exponents. -/
theorem ofInts_eq_ok_iff : ofInts f = .ok d ↔ ∀ m, (d.get m).toInt = f m := by
  unfold ofInts
  constructor
  · intro h m
    split at h
    · cases h
    · rename_i hall
      have hm : InRange (f m) := by simpa using List.find?_eq_none.mp hall m m.mem_all
      cases h
      rw [get_ofFun, toInt_ofInt_of_inRange hm]
  · intro h
    have hall : Magnitude.all.find? (fun m => !decide (InRange (f m))) = Option.none := by
      refine List.find?_eq_none.mpr fun m _ => ?_
      rw [← h m]
      simpa using inRange_toInt (d.get m)
    rw [hall]
    refine congrArg Except.ok (ext_get fun m => ?_)
    rw [get_ofFun, ← h m, Int8.ofInt_toInt]

theorem mul_eq_ok_iff : a.mul b = .ok d ↔ IsSum a b d := ofInts_eq_ok_iff

theorem div_eq_ok_iff : a.div b = .ok d ↔ IsDifference a b d :=
  ofInts_eq_ok_iff

theorem toInt_get_none (m : Magnitude) : (none.get m).toInt = 0 := by cases m <;> rfl

theorem inv_eq_ok_iff : a.inv = .ok d ↔ IsNegation a d := by
  unfold inv
  rw [div_eq_ok_iff]
  unfold IsDifference IsNegation
  simp [toInt_get_none]

/-! ### Undoing an operation -/

section Undo

variable {a b d : Dimension}

theorem ext_toInt (h : ∀ m, (a.get m).toInt = (b.get m).toInt) : a = b :=
  ext_get fun m => Int8.toInt_inj.mp (h m)

theorem IsSum.comm (h : IsSum a b d) : IsSum b a d := fun m => (h m).trans (Int.add_comm _ _)

theorem IsSum.difference (h : IsSum a b d) : IsDifference d b a := by
  intro m
  rw [h m, Int.add_sub_cancel]

theorem IsDifference.sum (h : IsDifference a b d) : IsSum d b a := by
  intro m
  rw [h m, Int.sub_add_cancel]

theorem isSum_none_iff : IsSum a b none ↔ IsNegation b a := by
  refine forall_congr' fun m => ?_
  rw [toInt_get_none]
  omega

theorem IsSum.eq_none (h : IsSum a b b) : a = none := by
  refine ext_toInt fun m => ?_
  have hm := h m
  rw [toInt_get_none]
  omega

end Undo

theorem isNone_iff : d.isNone = true ↔ d = none := by simp [isNone]

theorem isNone_eq_false_iff : d.isNone = false ↔ d ≠ none := by simp [isNone]

end Dimension

end Quantity
