import Quantity.Proofs.Dimension
import Quantity.Proofs.Expr.Encoding
import Quantity.Proofs.Model.Places

/-!
# Arithmetic of dimensions is exact or refused

Exponents of products, quotients, powers and reciprocals are worked out slot by slot. The outcome is
the dimension with these exponents, or else the first magnitude whose exponent does not fit
(`IsExact`). A power gives what multiplying factor by factor gives, and is refused where that is
(`times_eq_ok_iff`), since no partial product is further from zero than the whole one.
-/

namespace Quantity

namespace Magnitude

/-- **The first magnitude of a sort** is the one before which there is no other, by the order of
slots. -/
theorem find?_all_eq_some_iff :
    all.find? p = some m ↔ p m = true ∧ ∀ k, index k < index m → p k = false := by
  have hsorted : all.Pairwise (index · < index ·) := by decide
  rw [find?_eq_some_iff_first hsorted]
  constructor
  · rintro ⟨-, hm, hfirst⟩
    refine ⟨hm, fun k hlt => Bool.eq_false_iff.mpr fun hk => ?_⟩
    exact Nat.not_le_of_lt hlt (hfirst k k.mem_all hk)
  · rintro ⟨hm, hnone⟩
    refine ⟨m.mem_all, hm, fun k _ hk => Nat.le_of_not_lt fun hlt => ?_⟩
    exact Bool.false_ne_true ((hnone k hlt).symm.trans hk)

end Magnitude

namespace Dimension

/-- **Exact or refused**: the outcome is the dimension with these exponents if all of them fit, and
otherwise it names the first magnitude whose exponent does not. -/
structure IsExact (f : Magnitude → Int) (r : Except DimensionError Dimension) : Prop where
  ok_iff (d : Dimension) : r = .ok d ↔ ∀ m, (d.get m).toInt = f m
  fits_iff : (∃ d, r = .ok d) ↔ ∀ m, InRange (f m)
  overflow_iff (m : Magnitude) : r = .error (.overflow m) ↔
    ¬InRange (f m) ∧ ∀ k : Magnitude, k.index < m.index → InRange (f k)

theorem ofInts_eq_error_iff : ofInts f = .error (.overflow m) ↔
    ¬InRange (f m) ∧ ∀ k : Magnitude, k.index < m.index → InRange (f k) := by
  have hfind := Magnitude.find?_all_eq_some_iff (p := fun m => !decide (InRange (f m))) (m := m)
  simp only [Bool.not_eq_true', Bool.not_eq_false', decide_eq_false_iff_not, decide_eq_true_eq]
    at hfind
  rw [← hfind, ofInts]
  cases Magnitude.all.find? fun m => !decide (InRange (f m)) <;> simp

theorem isExact_ofInts (f : Magnitude → Int) : IsExact f (ofInts f) := by
  refine ⟨fun d => ofInts_eq_ok_iff, ?_, fun m => ofInts_eq_error_iff⟩
  constructor
  · rintro ⟨d, hd⟩ m
    exact ofInts_eq_ok_iff.mp hd m ▸ inRange_toInt (d.get m)
  · intro hall
    cases h : ofInts f with
    | ok d => exact ⟨d, rfl⟩
    | error e =>
      cases e
      exact absurd (hall _) (ofInts_eq_error_iff.mp h).1

theorem isExact_inv (a : Dimension) : IsExact (fun m => -(a.get m).toInt) a.inv := by
  have hslots : (fun m => (none.get m).toInt - (a.get m).toInt) = fun m => -(a.get m).toInt := by
    funext m
    rw [toInt_get_none, Int.zero_sub]
  exact hslots ▸ isExact_ofInts _

theorem mul_comm (a b : Dimension) : a.mul b = b.mul a := by
  exact congrArg ofInts (funext fun m => Int.add_comm _ _)

/-! ### Powers -/

/-- **The product of so many factors**, multiplied one by one into no dimension. -/
def times (a : Dimension) : Nat → Except DimensionError Dimension
  | 0 => .ok none
  | k + 1 => do (← a.times k).mul a

/-- A partial product is no further from zero than the next one. -/
theorem InRange.of_mul_succ {k : Nat} (h : InRange (x * (k + 1 : Nat))) : InRange (x * k) := by
  have hsucc : x * (k + 1 : Nat) = x * k + x := by
    rw [Int.natCast_add, Int.mul_add, Int.natCast_one, Int.mul_one]
  unfold InRange at *
  rcases Int.le_total 0 x with hx | hx
  · have := Int.mul_nonneg hx (Int.natCast_nonneg k)
    omega
  · have := Int.mul_nonpos_of_nonpos_of_nonneg hx (Int.natCast_nonneg k)
    omega

theorem times_eq_ok_iff {a : Dimension} :
    a.times k = .ok d ↔ ∀ m, (d.get m).toInt = (a.get m).toInt * k := by
  induction k generalizing d with
  | zero =>
    constructor
    · rintro ⟨⟩ m
      rw [toInt_get_none, Int.natCast_zero, Int.mul_zero]
    · intro h
      refine congrArg Except.ok (ext_toInt fun m => ?_)
      rw [h m, toInt_get_none, Int.natCast_zero, Int.mul_zero]
  | succ k ih =>
    have hstep : ∀ m, (a.get m).toInt * (k + 1 : Nat) = (a.get m).toInt * k + (a.get m).toInt := by
      intro m
      rw [Int.natCast_add, Int.mul_add, Int.natCast_one, Int.mul_one]
    rw [times, bind_eq_ok_iff]
    constructor
    · rintro ⟨c, hc, hd⟩ m
      rw [mul_eq_ok_iff.mp hd m, ih.mp hc m, hstep]
    · intro hd
      have hfits : ∀ m, InRange ((a.get m).toInt * k) := fun m =>
        .of_mul_succ (hd m ▸ inRange_toInt (d.get m))
      obtain ⟨c, hc⟩ := (isExact_ofInts _).fits_iff.mpr hfits
      have hslots := ofInts_eq_ok_iff.mp hc
      refine ⟨c, ih.mpr hslots, mul_eq_ok_iff.mpr fun m => ?_⟩
      rw [hd m, hslots m, hstep]

/-- **Arithmetic of dimensions**: every operation is exact or refused, products commute, products and
quotients undo each other, and a power is the product of as many factors. -/
theorem arithmetic_exact (a b : Dimension) (n : Int8) :
    IsExact (fun m => (a.get m).toInt + (b.get m).toInt) (a.mul b) ∧
      IsExact (fun m => (a.get m).toInt - (b.get m).toInt) (a.div b) ∧
      IsExact (fun m => (a.get m).toInt * n.toInt) (a.pow n) ∧
      IsExact (fun m => -(a.get m).toInt) a.inv ∧
      a.mul b = b.mul a ∧
      (∀ c, a.mul b = .ok c → c.div b = .ok a) ∧
      (∀ c, a.div b = .ok c → c.mul b = .ok a) ∧
      (0 ≤ n.toInt → ∀ c, a.pow n = .ok c ↔ a.times n.toInt.toNat = .ok c) := by
  refine ⟨isExact_ofInts _, isExact_ofInts _, isExact_ofInts _, isExact_inv a, mul_comm a b,
    fun c hc => ?_, fun c hc => ?_, fun hn c => ?_⟩
  · exact div_eq_ok_iff.mpr (mul_eq_ok_iff.mp hc).difference
  · exact mul_eq_ok_iff.mpr (div_eq_ok_iff.mp hc).sum
  · rw [times_eq_ok_iff, Int.toNat_of_nonneg hn]
    exact ofInts_eq_ok_iff

/-- The exponent -128 fits though 128 does not, and refused powers need not name what refused
products name. -/
theorem arithmetic_exact_minus64 :
    (0 : Int) ≤ (2 : Int8).toInt ∧
      times { time := 5, mass := -64 } 2 = .ok { time := 10, mass := -128 } ∧
      pow { time := 5, mass := -64 } 50 = .error (.overflow .time) ∧
      times { time := 5, mass := -64 } 50 = .error (.overflow .mass) := by
  obtain ⟨-, -, -, -, -, -, -, h⟩ := arithmetic_exact { time := 5, mass := -64 } none 2
  exact ⟨by decide, (h (by decide) _).mp (by decide), by decide, by decide⟩

end Dimension

end Quantity
