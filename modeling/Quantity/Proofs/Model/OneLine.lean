import Quantity.Proofs.Model.Kinds
import Quantity.Proofs.Model.Meaning
import Quantity.Proofs.Number.Written

/-!
# Texts without line feeds

Numbers are written on one line, and so are texts that are put together from such texts.
-/

namespace Quantity

open List

/-! ### Texts -/

def OneLine (s : String) : Prop := '\n' ∉ s.toList

instance (s : String) : Decidable (OneLine s) := inferInstanceAs (Decidable (_ ∉ _))

/-- A literal is this at once, where the bytes of a text need to be read for `String.toList`. -/
theorem oneLine_ofList : OneLine (String.ofList cs) ↔ '\n' ∉ cs := by
  rw [OneLine, String.toList_ofList]

@[simp] theorem oneLine_append : OneLine (a ++ b) ↔ OneLine a ∧ OneLine b := by
  simp [OneLine]

theorem forall_mem_intercalate {P : Char → Prop} (hsep : ∀ c ∈ sep.toList, P c)
    (hxs : ∀ x ∈ xs, ∀ c ∈ x.toList, P c) : ∀ c ∈ (String.intercalate sep xs).toList, P c := by
  induction xs with
  | nil => simp
  | cons x xs ih =>
    obtain ⟨hx, hxs⟩ := forall_mem_cons.mp hxs
    cases xs with
    | nil => exact hx
    | cons y ys =>
      rw [String.intercalate_cons_cons, String.toList_append, String.toList_append]
      exact forall_mem_append.mpr ⟨forall_mem_append.mpr ⟨hx, hsep⟩, ih hxs⟩

/-! ### Numbers -/

namespace Number

theorem oneLine_toString_nat (n : Nat) : OneLine (toString n) := notMem_toString (by decide) n

theorem Layout.oneLine_write (l : Layout) (b : Binary) : OneLine (l.write b) := by
  cases b with
  | undefined => exact (by decide +kernel : OneLine "NaN")
  | infinite negative =>
    show OneLine (if negative then "-inf" else "inf")
    cases negative <;> decide +kernel
  | finite negative significand exponent wideBelow =>
    exact (l.isNumber_write ⟨_, _, _, _, rfl⟩).notMem (by decide) (by decide)

end Number

open Number

theorem Numeral.oneLine_literal (n : Numeral) : OneLine n.literal := by
  cases n with
  | double v =>
    exact oneLine_append.mpr ⟨Layout.oneLine_write _ _, by decide +kernel⟩
  | float v =>
    exact oneLine_append.mpr ⟨Layout.oneLine_write _ _, by decide +kernel⟩
  | decimal v =>
    unfold literal decimalLiteral
    simp only [oneLine_append, oneLine_toString_nat]
    split_ifs <;> decide +kernel

end Quantity
