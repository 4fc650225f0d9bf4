import Quantity.Number.Layout
import Quantity.Proofs.Number.Binary

/-!
# Texts of numbers

Numbers are written as whole numbers with an optional fraction and an optional exponent, and never
with a zero in front of other digits (`IsNumber`). That holds of integers and of all finite binary
numbers in any layout (`isNumber_toString`, `isNumber_write`), because the fewest digits that read
back do not begin with a zero.
-/

namespace Quantity.Number

open List

/-! ### The form of a number -/

def IsDigits (ds : List Char) : Prop := ds ≠ [] ∧ ∀ c ∈ ds, c.isDigit = true

/-- Digits without a zero in front of others. -/
def IsWhole (ds : List Char) : Prop := IsDigits ds ∧ (ds.head? = some '0' → ds = ['0'])

/-- Nothing, or digits after a point. -/
inductive IsFraction : List Char → Prop
  | nothing : IsFraction []
  | point {ds : List Char} (h : IsDigits ds) : IsFraction ('.' :: ds)

/-- Nothing, or digits after a mark and an optional sign. -/
inductive IsExponent : List Char → Prop
  | nothing : IsExponent []
  | mark {sign ds : List Char} (hsign : sign = [] ∨ sign = ['+'] ∨ sign = ['-'])
      (h : IsDigits ds) : IsExponent ('e' :: sign ++ ds)

/-- **The characters of a number.** -/
inductive IsNumber : List Char → Prop
  | parts {sign whole fraction exponent : List Char} (hsign : sign = [] ∨ sign = ['-'])
      (hwhole : IsWhole whole) (hfraction : IsFraction fraction) (hexponent : IsExponent exponent) :
      IsNumber (sign ++ whole ++ fraction ++ exponent)

/-! ### Digits -/

theorem isDigits_toDigits (n : Nat) : IsDigits (Nat.toDigits 10 n) :=
  ⟨Nat.toDigits_ne_nil, fun _ hc => Nat.isDigit_of_mem_toDigits (by decide) (by decide) hc⟩

theorem IsDigits.notMem (h : IsDigits ds) (hc : c.isDigit = false) : c ∉ ds := by
  intro hmem
  rw [h.2 c hmem] at hc
  cases hc

theorem notMem_toString (hc : c.isDigit = false) (n : Nat) : c ∉ (toString n).toList := by
  show c ∉ n.repr.toList
  rw [Nat.toList_repr]
  exact (isDigits_toDigits n).notMem hc

theorem IsNumber.notMem (h : IsNumber cs) (hc : c.isDigit = false)
    (hmark : c ∉ ['-', '+', '.', 'e']) : c ∉ cs := by
  obtain ⟨hsign, hwhole, hfraction, hexponent⟩ := h
  simp only [mem_cons, not_or] at hmark
  simp only [mem_append, not_or]
  refine ⟨⟨⟨?_, hwhole.1.notMem hc⟩, ?_⟩, ?_⟩
  · rcases hsign with rfl | rfl <;> simp [hmark]
  · cases hfraction with
    | nothing => simp
    | point h => simp [hmark, h.notMem hc]
  · cases hexponent with
    | nothing => simp
    | mark hsign h => rcases hsign with rfl | rfl | rfl <;> simp [hmark, h.notMem hc]

/-- The first digit of a number is not zero, unless the number is. -/
theorem head?_toDigits (h : n ≠ 0) : (Nat.toDigits 10 n).head? ≠ some '0' := by
  induction n using Nat.strongRecOn with
  | _ n ih =>
    by_cases hlt : n < 10
    · have hdigit : ∀ d < 10, d ≠ 0 → [Nat.digitChar d].head? ≠ some '0' := by decide
      rw [Nat.toDigits_of_lt_base hlt]
      exact hdigit n hlt h
    · have hle : 10 ≤ n := Nat.le_of_not_lt hlt
      have hhead := ih (n / 10) (by omega) (by omega)
      obtain ⟨c, cs, hcs⟩ := exists_cons_of_ne_nil (@Nat.toDigits_ne_nil (n / 10) 10)
      rw [Nat.toDigits_of_base_le (by decide) hle, hcs]
      rw [hcs] at hhead
      exact hhead

theorem isWhole_toDigits (n : Nat) : IsWhole (Nat.toDigits 10 n) := by
  refine ⟨isDigits_toDigits n, fun hhead => ?_⟩
  by_cases h : n = 0
  · rw [h]
    rfl
  · exact absurd hhead (head?_toDigits h)

theorem isDigits_append_zeros (h : IsDigits ds) (n : Nat) :
    IsDigits (ds ++ List.replicate n '0') := by
  refine ⟨append_ne_nil_of_left_ne_nil h.1 _, fun c hc => ?_⟩
  rcases mem_append.mp hc with hc | hc
  · exact h.2 c hc
  · rw [(mem_replicate.mp hc).2]
    rfl

/-- Digits with zeros in front of them, such that there is a digit before the last `places`. -/
def padded (ds : List Char) (places : Nat) : List Char :=
  List.replicate (places + 1 - ds.length) '0' ++ ds

theorem length_padded (ds : List Char) (places : Nat) :
    (padded ds places).length = max (places + 1) ds.length := by
  rw [padded, length_append, length_replicate]
  omega

theorem isDigit_of_mem_padded (h : IsDigits ds) (hc : c ∈ padded ds places) : c.isDigit = true := by
  rcases mem_append.mp hc with hc | hc
  · rw [(mem_replicate.mp hc).2]
    rfl
  · exact h.2 c hc

theorem isDigits_take_padded (h : IsDigits ds) (places : Nat) :
    IsDigits ((padded ds places).take ((padded ds places).length - places)) := by
  have hlength := length_padded ds places
  refine ⟨?_, fun c hc => isDigit_of_mem_padded h (mem_of_mem_take hc)⟩
  rw [← length_pos_iff, length_take]
  omega

/-- What stands before the point: a zero, or digits that do not begin with one. -/
theorem isWhole_take_padded (h : IsWhole ds) (hplaces : 0 < places) :
    IsWhole ((padded ds places).take ((padded ds places).length - places)) := by
  have hlength := length_padded ds places
  refine ⟨isDigits_take_padded h.1 places, fun hhead => ?_⟩
  by_cases hle : ds.length ≤ places
  · have hone : (padded ds places).length - places = 1 := by omega
    have hzeros : places + 1 - ds.length = (places - ds.length) + 1 := by omega
    rw [hone, padded, hzeros]
    rfl
  · -- no zero is in front of the digits
    have hpadded : padded ds places = ds := by
      rw [padded, Nat.sub_eq_zero_of_le (by omega)]
      rfl
    rw [hpadded] at hhead
    have hpositive : ds.length - places ≠ 0 := by omega
    rw [head?_take, if_neg hpositive] at hhead
    have hds := h.2 hhead
    rw [hds] at hle
    simp only [length_singleton] at hle
    omega

theorem isDigits_drop_padded (h : IsDigits ds) (hplaces : 0 < places) :
    IsDigits ((padded ds places).drop ((padded ds places).length - places)) := by
  have hlength := length_padded ds places
  refine ⟨fun hnil => ?_, fun c hc => isDigit_of_mem_padded h (mem_of_mem_drop hc)⟩
  rw [drop_eq_nil_iff] at hnil
  omega

/-! ### Integers -/

theorem toList_toString (n : Int) :
    (toString n).toList = (if n < 0 then ['-'] else []) ++ Nat.toDigits 10 n.natAbs := by
  cases n with
  | ofNat n => exact Nat.toList_repr
  | negSucc n =>
    show ("-" ++ (n + 1).repr).toList = _
    rw [String.toList_append, Nat.toList_repr, if_pos (Int.negSucc_lt_zero n)]
    rfl

theorem isNumber_toString (n : Int) : IsNumber (toString n).toList := by
  rw [toList_toString]
  have hparts :
      IsNumber ((if n < 0 then ['-'] else []) ++ Nat.toDigits 10 n.natAbs ++ [] ++ []) := by
    refine .parts ?_ (isWhole_toDigits _) .nothing .nothing
    split_ifs
    · exact .inr rfl
    · exact .inl rfl
  simpa only [append_nil] using hparts

/-! ### The fewest digits -/

namespace ReadBack

theorem contains_zero {r : ReadBack} (h : 0 < r.low) : r.contains 0 = false := by
  unfold contains
  dsimp only
  split_ifs
  · rw [decide_eq_false (by omega)]
    rfl
  · rw [decide_eq_false (by omega)]
    rfl

theorem contains_of_nearest? {r : ReadBack} (h : r.nearest? tie = some n) :
    r.contains n = true := by
  unfold nearest? at h
  dsimp only at h
  split at h
  · cases h
    assumption
  · cases h
    assumption
  · cases h
  · rename_i hbelow habove
    have hn : n = r.value / r.denominator ∨ n = r.value / r.denominator + 1 := by
      cases tie <;> split_ifs at h <;> have hn := Option.some.inj h <;> omega
    rcases hn with rfl | rfl
    · exact hbelow
    · exact habove

theorem low_ofBinary (h : significand ≠ 0) (exponent : Int) (wideBelow : Bool) :
    0 < (ofBinary significand exponent wideBelow).low := by
  have hscale : 0 < twoPow exponent.toNat := Nat.pow_pos (by decide)
  refine Nat.mul_pos ?_ hscale
  split_ifs <;> omega

theorem digits_shortest {r : ReadBack} (h : 0 < r.low) (tie : Tie) :
    (r.shortest tie).digits ≠ 0 ∨ r.shortest tie = ⟨0, 0⟩ := by
  unfold shortest
  dsimp only
  cases hfound : (List.range 21).findSome? fun (i : Nat) =>
      ((r.inUnits (r.topExponent - i)).nearest? tie).map fun n =>
        Digits.mk n (r.topExponent - i) with
  | none => exact .inr rfl
  | some d =>
    left
    obtain ⟨i, -, hi⟩ := exists_of_findSome?_eq_some hfound
    obtain ⟨n, hn, rfl⟩ := Option.map_eq_some_iff.mp hi
    have hcontains := contains_of_nearest? hn
    intro hzero
    have hzero : n = 0 := hzero
    have hlow : 0 < (r.inUnits (r.topExponent - i)).low := Nat.mul_pos h (Nat.pow_pos (by decide))
    rw [hzero, contains_zero hlow] at hcontains
    cases hcontains

end ReadBack

theorem digits_shortestDigits (h : shortestDigits tie significand exponent wideBelow = some d) :
    d.digits ≠ 0 ∨ d = ⟨0, 0⟩ := by
  unfold shortestDigits at h
  split_ifs at h with hzero
  cases h
  exact ReadBack.digits_shortest (ReadBack.low_ofBinary hzero _ _) tie

/-! ### Layouts -/

namespace Layout

theorem isExponent_exponentText (signsExponent : Bool) (e : Int) :
    IsExponent (exponentText signsExponent e) := by
  refine .mark ?_ (isDigits_toDigits _)
  split_ifs
  · exact .inr (.inr rfl)
  · exact .inr (.inl rfl)
  · exact .inl rfl

theorem isWhole_append_zeros (h : IsWhole ds) (hzero : ds = ['0'] → n = 0) :
    IsWhole (ds ++ List.replicate n '0') := by
  refine ⟨isDigits_append_zeros h.1 n, fun hhead => ?_⟩
  obtain ⟨c, cs, rfl⟩ := exists_cons_of_ne_nil h.1.1
  have hds := h.2 hhead
  rw [hzero hds, replicate_zero, append_nil]
  exact hds

/-- Positional writing, of digits that do not begin with a zero or of a zero alone. -/
theorem exists_plain (keepsPoint : Bool) (h : IsWhole ds) (hzero : ds = ['0'] → exponent = 0) :
    ∃ whole fraction, IsWhole whole ∧ IsFraction fraction ∧
      plain keepsPoint ds exponent = whole ++ fraction := by
  unfold plain
  split_ifs with hexponent hkeeps
  · refine ⟨_, ['.', '0'], isWhole_append_zeros h ?_, .point ⟨by simp, by simp⟩, rfl⟩
    intro hds
    rw [hzero hds]
    rfl
  · refine ⟨_, [], isWhole_append_zeros h ?_, .nothing, rfl⟩
    intro hds
    rw [hzero hds]
    rfl
  · have hplaces : 0 < (-exponent).toNat := by omega
    exact ⟨_, _, isWhole_take_padded h hplaces, .point (isDigits_drop_padded h.1 hplaces), rfl⟩

theorem exists_scientific (signsExponent : Bool) (leading : Int) (h : IsWhole ds) :
    ∃ whole fraction exponent, IsWhole whole ∧ IsFraction fraction ∧ IsExponent exponent ∧
      scientific signsExponent ds leading = whole ++ fraction ++ exponent := by
  have hexponent := isExponent_exponentText signsExponent leading
  unfold scientific
  split
  · rename_i d e more
    refine ⟨[d], '.' :: e :: more, _, ⟨⟨by simp, fun c hc => ?_⟩, fun hhead => ?_⟩,
      .point ⟨by simp, fun c hc => h.1.2 c (mem_cons_of_mem _ hc)⟩, hexponent, rfl⟩
    · exact h.1.2 c (mem_of_mem_take (i := 1) hc)
    · rw [Option.some.inj hhead]
  · exact ⟨ds, [], _, h, .nothing, hexponent, by rw [append_nil]⟩

theorem exists_magnitudeText (l : Layout) (h : ∀ x, d = some x → x.digits ≠ 0 ∨ x = ⟨0, 0⟩) :
    ∃ whole fraction exponent, IsWhole whole ∧ IsFraction fraction ∧ IsExponent exponent ∧
      l.magnitudeText d = whole ++ fraction ++ exponent := by
  cases d with
  | none =>
    have hzero : IsWhole ['0'] := isWhole_toDigits 0
    unfold magnitudeText
    split_ifs
    · exact ⟨['0'], ['.', '0'], [], hzero, .point hzero.1, .nothing, rfl⟩
    · exact ⟨['0'], [], [], hzero, .nothing, .nothing, rfl⟩
  | some d =>
    have hzero : Nat.toDigits 10 d.digits = ['0'] → d.exponent = 0 := by
      rcases h d rfl with hne | rfl
      · intro hds
        exact absurd (congrArg List.head? hds) (head?_toDigits hne)
      · exact fun _ => rfl
    unfold magnitudeText
    dsimp only
    split_ifs
    · obtain ⟨whole, fraction, hwhole, hfraction, heq⟩ :=
        exists_plain l.keepsPoint (isWhole_toDigits d.digits) hzero
      exact ⟨whole, fraction, [], hwhole, hfraction, .nothing, by rw [heq, append_nil]⟩
    · exact exists_scientific l.signsExponent _ (isWhole_toDigits d.digits)

/-- **Finite numbers are written as numbers, in any layout.** -/
theorem isNumber_write (l : Layout) (h : b.IsFinite) : IsNumber (l.write b).toList := by
  obtain ⟨negative, significand, exponent, wideBelow, rfl⟩ := h
  have hsign : (if negative then ['-'] else []) = [] ∨
      (if negative then ['-'] else []) = ['-'] := by
    cases negative
    · exact .inl rfl
    · exact .inr rfl
  obtain ⟨whole, fraction, exponent', hwhole, hfraction, hexponent, heq⟩ :=
    l.exists_magnitudeText fun x
        (hx : shortestDigits l.tie significand exponent wideBelow = some x) =>
      digits_shortestDigits hx
  rw [write, String.toList_ofList, heq, ← List.append_assoc, ← List.append_assoc]
  exact .parts hsign hwhole hfraction hexponent

end Layout

end Quantity.Number
