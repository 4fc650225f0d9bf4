import Quantity.Number.Decimal
import Quantity.Proofs.Number.Written

/-!
# Decimals and their texts

The text of a decimal has all its digits and places, so the decimal is read back from it
(`Decimal.read?_toText`). Only the sign of a zero is lost, which makes no difference to its value.
-/

namespace Quantity.Number

open List

/-! ### Values of digits -/

theorem digitsValue_append (n : Nat) (ds es : List Char) :
    digitsValue n (ds ++ es) = digitsValue (digitsValue n ds) es := foldl_append

theorem digitsValue_toDigits (n : Nat) : digitsValue 0 (Nat.toDigits 10 n) = n :=
  Nat.ofDigitChars_ten_toDigits

theorem le_digitsValue (n : Nat) (ds : List Char) : n ≤ digitsValue n ds := by
  induction ds generalizing n with
  | nil => exact Nat.le_refl n
  | cons d ds ih =>
    have hstep : n ≤ 10 * n + (d.toNat - '0'.toNat) := by omega
    exact Nat.le_trans hstep (ih _)

theorem digitsValue_zeros (k : Nat) : digitsValue 0 (List.replicate k '0') = 0 := by
  induction k with
  | zero => rfl
  | succ k ih => exact ih

theorem digitsValue_padded (n places : Nat) :
    digitsValue 0 (padded (Nat.toDigits 10 n) places) = n := by
  rw [padded, digitsValue_append, digitsValue_zeros, digitsValue_toDigits]

theorem splitSign_digits (hds : IsDigits ds) (negative : Bool) (rest : List Char) :
    splitSign ((if negative then ['-'] else []) ++ (ds ++ rest)) = (negative, ds ++ rest) := by
  cases negative with
  | true => rfl
  | false =>
    obtain ⟨c, cs, rfl⟩ := exists_cons_of_ne_nil hds.1
    have hc : c.isDigit = true := hds.2 c (mem_cons_self ..)
    unfold splitSign
    split
    · rename_i heq
      cases heq
      cases hc
    · rename_i heq
      cases heq
      cases hc
    · rfl

namespace Decimal

/-! ### Reading digits -/

theorem readFrom?_digit (hc : c.isDigit = true) (cs : List Char)
    (hvalue : 10 * p.significand + (c.toNat - '0'.toNat) < bound)
    (hplaces : p.pointSeen = true → p.places < maxPlaces) :
    readFrom? p (c :: cs) =
      readFrom?
        { p with
          significand := 10 * p.significand + (c.toNat - '0'.toNat)
          places := if p.pointSeen then p.places + 1 else p.places
          digitSeen := true } cs := by
  have hfits : ((p.pointSeen && p.places = maxPlaces) ||
      bound ≤ 10 * p.significand + (c.toNat - '0'.toNat)) = false := by
    rw [Bool.or_eq_false_iff, Bool.and_eq_false_imp]
    refine ⟨fun hpoint => ?_, decide_eq_false (Nat.not_le.mpr hvalue)⟩
    exact decide_eq_false (Nat.ne_of_lt (hplaces hpoint))
  rw [readFrom?.eq_def]
  split
  · rename_i heq
    cases heq
  · rename_i heq
    cases heq
    cases hc
  · rename_i heq
    cases heq
    cases hc
  · rename_i heq
    cases heq
    rw [if_pos hc]
    dsimp only
    rw [hfits]
    rfl

/-- **A run of digits is read as a whole**, if its value fits and there are not too many places. -/
theorem readFrom?_digits (hds : ∀ c ∈ ds, c.isDigit = true) (rest : List Char)
    (hvalue : digitsValue p.significand ds < bound)
    (hplaces : p.pointSeen = true → p.places + ds.length ≤ maxPlaces) :
    readFrom? p (ds ++ rest) =
      readFrom?
        { p with
          significand := digitsValue p.significand ds
          places := if p.pointSeen then p.places + ds.length else p.places
          digitSeen := p.digitSeen || !ds.isEmpty } rest := by
  induction ds generalizing p with
  | nil =>
    obtain ⟨significand, places, pointSeen, digitSeen⟩ := p
    cases pointSeen <;> simp [digitsValue]
  | cons c ds ih =>
    obtain ⟨hc, hds⟩ := forall_mem_cons.mp hds
    obtain ⟨significand, places, pointSeen, digitSeen⟩ := p
    have hfits := Nat.lt_of_le_of_lt (le_digitsValue _ ds) hvalue
    rw [cons_append, readFrom?_digit hc _ hfits, ih hds hvalue]
    · cases pointSeen <;> simp [digitsValue, Nat.add_assoc, Nat.add_comm 1]
    · intro hpoint
      have hlength : places + (ds.length + 1) ≤ maxPlaces := hplaces hpoint
      rw [if_pos hpoint]
      show places + 1 + ds.length ≤ maxPlaces
      omega
    · intro hpoint
      have hlength : places + (ds.length + 1) ≤ maxPlaces := hplaces hpoint
      show places < maxPlaces
      omega

/-! ### Texts -/

/-- The decimal without the sign of a zero. -/
def plain (d : Decimal) : Decimal := { d with negative := d.negative && d.significand != 0 }

theorem sameValue_plain (d : Decimal) : d.plain.sameValue d = true := by
  have hsigned : d.plain.signed = d.signed := by
    unfold plain signed
    by_cases hzero : d.significand = 0
    · simp [hzero]
    · simp [hzero]
  unfold sameValue
  rw [hsigned]
  exact beq_self_eq_true _

/-- The text of a decimal without its sign. -/
def magnitudeText (d : Decimal) : List Char :=
  let ds := padded (Nat.toDigits 10 d.significand) d.places
  ds.take (ds.length - d.places) ++
    if d.places = 0 then [] else '.' :: ds.drop (ds.length - d.places)

theorem toList_toText (d : Decimal) :
    d.toText.toList = (if d.negative then ['-'] else []) ++ d.magnitudeText := by
  rw [toText, String.toList_ofList, List.append_assoc]
  rfl

/-- The digits are read one by one, with the point among them if there are places after it. -/
theorem readFrom?_magnitudeText (d : Decimal) :
    readFrom? {} d.magnitudeText = some ⟨d.significand, d.places, decide (d.places ≠ 0), true⟩ := by
  unfold magnitudeText
  have hdigits : ∀ c ∈ padded (Nat.toDigits 10 d.significand) d.places, c.isDigit = true :=
    fun c => isDigit_of_mem_padded (isDigits_toDigits d.significand)
  have hwhole := isDigits_take_padded (isDigits_toDigits d.significand) d.places
  have hlength := length_padded (Nat.toDigits 10 d.significand) d.places
  have hvalue := digitsValue_padded d.significand d.places
  generalize padded (Nat.toDigits 10 d.significand) d.places = ds at *
  -- the value of the digits before the point is not larger
  have hsplit : digitsValue (digitsValue 0 (ds.take (ds.length - d.places)))
      (ds.drop (ds.length - d.places)) = d.significand := by
    rw [← digitsValue_append, take_append_drop, hvalue]
  have hbound : digitsValue 0 (ds.take (ds.length - d.places)) < bound := by
    have hle := le_digitsValue (digitsValue 0 (ds.take (ds.length - d.places)))
      (ds.drop (ds.length - d.places))
    rw [hsplit] at hle
    exact Nat.lt_of_le_of_lt hle d.significand_lt
  have hseen : (ds.take (ds.length - d.places)).isEmpty = false :=
    isEmpty_eq_false_iff.mpr hwhole.1
  rw [readFrom?_digits hwhole.2 _ hbound (by simp)]
  by_cases hplaces : d.places = 0
  · have hall : ds.take (ds.length - d.places) = ds := by
      rw [hplaces, Nat.sub_zero, take_length]
    rw [hseen, hall, hvalue, hplaces]
    rfl
  · have hcount : (ds.drop (ds.length - d.places)).length = d.places := by
      rw [length_drop]
      omega
    rw [hseen, if_neg hplaces, ← append_nil (ds.drop _)]
    show readFrom? ⟨_, 0, true, true⟩ (ds.drop (ds.length - d.places) ++ []) = _
    rw [readFrom?_digits (fun c hc => hdigits c (mem_of_mem_drop hc))]
    · rw [hsplit, hcount]
      simp [readFrom?, hplaces]
    · exact hsplit ▸ d.significand_lt
    · intro _
      rw [hcount, Nat.zero_add]
      exact d.places_le

/-- **A decimal is read back from its text**, but for the sign of a zero. -/
theorem read?_toText (d : Decimal) : read? d.toText.toList = some d.plain := by
  have hdigits := isDigits_take_padded (isDigits_toDigits d.significand) d.places
  have hsplit : splitSign d.toText.toList = (d.negative, d.magnitudeText) := by
    rw [toList_toText]
    exact splitSign_digits hdigits d.negative _
  have hparts : d.significand < twoPow 96 ∧ d.places ≤ 28 := ⟨d.significand_lt, d.places_le⟩
  unfold read?
  rw [hsplit]
  dsimp only
  rw [readFrom?_magnitudeText]
  show normal? d.negative d.significand d.places = some d.plain
  rw [normal?, ofParts?, dif_pos hparts]
  rfl

end Decimal

end Quantity.Number
