import Quantity.Numeral
import Quantity.Proofs.Number.Written
import Mathlib.Algebra.Group.Nat.Defs
import Mathlib.Data.List.Basic

/-!
# Decimals in generated source

A decimal is written as a call with five arguments: three words of its magnitude, its sign and the
number of its places. The arguments can be told from the text (`Parts.call_inj`), and they are those
of one mantissa and one number of places only (`Parts.Denotes`). So the call stands for the decimal
that it was written for, and decimals with another mantissa or another number of places have another
text.
-/

namespace Quantity.Number

open List

/-- The arguments of a call that builds a decimal. -/
@[ext] structure Parts where
  low : Nat
  middle : Nat
  high : Nat
  negative : Bool
  scale : Nat
  deriving DecidableEq

namespace Parts

/-- The text of the call. -/
def call (p : Parts) : String :=
  "Decimal::from_parts(" ++ toString p.low ++ ", " ++ toString p.middle ++ ", " ++ toString p.high
    ++ ", " ++ (if p.negative then "true" else "false") ++ ", " ++ toString p.scale ++ ")"

/-- **The decimal that the arguments stand for**: words below `2 ^ 32`, the lowest first, with the
sign and the scale of the decimal. -/
structure Denotes (p : Parts) (mantissa : Int) (scale : Nat) : Prop where
  low_lt : p.low < 2 ^ 32
  middle_lt : p.middle < 2 ^ 32
  high_lt : p.high < 2 ^ 32
  words : p.low + 2 ^ 32 * p.middle + 2 ^ 64 * p.high = mantissa.natAbs
  negative_iff : p.negative = true ↔ mantissa < 0
  scale_eq : p.scale = scale

/-! ### Reading the arguments -/

/-- What stands in front of the first separator is told by the separator. -/
theorem append_cons_inj {c : Char} (hds : c ∉ ds) (hes : c ∉ es)
    (h : ds ++ c :: xs = es ++ c :: ys) : ds = es ∧ xs = ys := by
  have hindex := congrArg (idxOf c) h
  rw [idxOf_append_of_notMem hds, idxOf_append_of_notMem hes, idxOf_cons_self, idxOf_cons_self]
    at hindex
  obtain ⟨hfront, hrest⟩ := append_inj h hindex
  exact ⟨hfront, (cons.inj hrest).2⟩

theorem toString_append_inj {m n : Nat} (hc : c.isDigit = false)
    (h : (toString m).toList ++ c :: xs = (toString n).toList ++ c :: ys) : m = n ∧ xs = ys := by
  obtain ⟨hdigits, hrest⟩ := append_cons_inj (notMem_toString hc m) (notMem_toString hc n) h
  exact ⟨Nat.repr_inj.mp (String.toList_inj.mp hdigits), hrest⟩

theorem toList_call (p : Parts) : p.call.toList = "Decimal::from_parts(".toList ++
    ((toString p.low).toList ++ ',' :: ' ' :: ((toString p.middle).toList ++ ',' :: ' ' ::
      ((toString p.high).toList ++ ',' :: ' ' :: ((if p.negative then "true" else "false").toList ++
        ',' :: ' ' :: ((toString p.scale).toList ++ [')']))))) := by
  have hcomma : ", ".toList = [',', ' '] := by decide +kernel
  have hclose : ")".toList = [')'] := by decide +kernel
  unfold call
  simp only [String.toList_append, append_assoc]
  rfl

/-- **The call tells its arguments.** -/
theorem call_inj (h : call p = call q) : p = q := by
  have hlist := congrArg String.toList h
  rw [toList_call, toList_call] at hlist
  replace hlist := append_cancel_left hlist
  obtain ⟨hlow, hlist⟩ := toString_append_inj rfl hlist
  obtain ⟨hmiddle, hlist⟩ := toString_append_inj rfl (cons.inj hlist).2
  obtain ⟨hhigh, hlist⟩ := toString_append_inj rfl (cons.inj hlist).2
  have hword (b : Bool) : ',' ∉ (if b then "true" else "false").toList := by
    cases b <;> decide +kernel
  have hwords : ∀ a b : Bool, (if a then "true" else "false").toList =
      (if b then "true" else "false").toList → a = b := by
    decide +kernel
  obtain ⟨hsign, hlist⟩ := append_cons_inj (hword _) (hword _) (cons.inj hlist).2
  obtain ⟨hscale, -⟩ := toString_append_inj rfl (cons.inj hlist).2
  exact Parts.ext hlow hmiddle hhigh (hwords _ _ hsign) hscale

/-- The arguments stand for one decimal only. -/
theorem Denotes.inj (h : Denotes p m s) (h' : Denotes p n t) : m = n ∧ s = t := by
  have hwords := h.words.symm.trans h'.words
  have hsign := h.negative_iff.symm.trans h'.negative_iff
  exact ⟨by omega, h.scale_eq.symm.trans h'.scale_eq⟩

/-- A decimal has one triple of words only. -/
theorem Denotes.unique (h : Denotes p m s) (h' : Denotes q m s) : p = q := by
  obtain ⟨low, middle, high, negative, scale⟩ := p
  obtain ⟨low', middle', high', negative', scale'⟩ := q
  obtain ⟨hlow, hmiddle, hhigh, hwords, hnegative, rfl⟩ := h
  obtain ⟨hlow', hmiddle', hhigh', hwords', hnegative', rfl⟩ := h'
  dsimp only at *
  have hsign : negative = negative' := Bool.eq_iff_iff.mpr (hnegative.trans hnegative'.symm)
  obtain ⟨rfl, rfl, rfl⟩ : low = low' ∧ middle = middle' ∧ high = high' := by omega
  rw [hsign]

end Parts

/-! ### Decimals -/

/-- The arguments of the call that builds the decimal. -/
def Decimal.parts (d : Decimal) : Parts :=
  ⟨d.words.1, d.words.2.1, d.words.2.2, d.negative && !d.isZero, d.places⟩

theorem Decimal.denotes_parts (d : Decimal) : d.parts.Denotes d.signed d.places := by
  have hword (n : Nat) : n % twoPow 32 < 2 ^ 32 := Nat.mod_lt n (by decide)
  have hwords : d.significand % 2 ^ 32 + 2 ^ 32 * (d.significand / 2 ^ 32 % 2 ^ 32) +
      2 ^ 64 * (d.significand / 2 ^ 64 % 2 ^ 32) = d.significand := by
    have hlt : d.significand < 2 ^ 96 := d.significand_lt
    omega
  have hmagnitude : d.significand = d.signed.natAbs := by
    unfold signed
    cases d.negative <;> simp
  have hsign : (d.negative && !d.isZero) = true ↔ d.signed < 0 := by
    unfold signed isZero
    cases d.negative with
    | false => simp
    | true => simp [Nat.pos_iff_ne_zero]
  exact ⟨hword _, hword _, hword _, hwords.trans hmagnitude, hsign, rfl⟩

theorem Decimal.literal_eq_call (d : Decimal) : (Numeral.decimal d).literal = d.parts.call := rfl

end Quantity.Number

namespace Quantity.Numeral

open Number

/-- **Decimal literals denote their value**: the arguments in the text are those of the decimal, and
texts are equal only for one mantissa and one number of places. -/
theorem literal_denotes (d : Decimal) :
    (∃ p : Parts, (decimal d).literal = p.call) ∧
      (∀ p : Parts, (decimal d).literal = p.call → p.Denotes d.signed d.places) ∧
      ∀ e : Decimal, (decimal d).literal = (decimal e).literal ↔
        d.signed = e.signed ∧ d.places = e.places := by
  refine ⟨⟨d.parts, d.literal_eq_call⟩, fun p hp => ?_, fun e => ?_⟩
  · rw [d.literal_eq_call] at hp
    exact Parts.call_inj hp ▸ d.denotes_parts
  · rw [d.literal_eq_call, e.literal_eq_call]
    constructor
    · intro h
      exact d.denotes_parts.inj (Parts.call_inj h ▸ e.denotes_parts)
    · rintro ⟨hsigned, hplaces⟩
      have he := e.denotes_parts
      rw [← hsigned, ← hplaces] at he
      rw [d.denotes_parts.unique he]

/-- All three words are in use for the constant pi. -/
theorem literal_denotes_pi :
    (decimal NamedConstant.pi.toDecimal).literal =
        Parts.call ⟨1102470953, 185874565, 1703060790, false, 28⟩ ∧
      Parts.Denotes ⟨1102470953, 185874565, 1703060790, false, 28⟩
        31415926535897932384626433833 28 := by
  have hcall : (decimal NamedConstant.pi.toDecimal).literal =
      Parts.call ⟨1102470953, 185874565, 1703060790, false, 28⟩ := rfl
  exact ⟨hcall, (literal_denotes NamedConstant.pi.toDecimal).2.1 _ hcall⟩

end Quantity.Numeral
