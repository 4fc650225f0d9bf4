import Mathlib.Data.List.Infix
import Quantity.Proofs.Expr.Reader

/-!
# One pair of parentheses

Code is put in parentheses unless it is in parentheses already, which one scan finds out. Inside of
the first parenthesis the scan fails exactly where the depth is back to zero too early
(`isGroup_iff`), so that it tells code in parentheses from other code (`isGroup_iff_enclosed`). In
whole: `parenthesize_encloses`.
-/

namespace Quantity.Code

open List

variable {cs : List Char} {c : Char} {d : Int}

/-- How many parentheses are open behind a text. -/
def depth (cs : List Char) : Int := cs.count '(' - cs.count ')'

/-- Every parenthesis that is closed was opened before, and every one that is opened is closed. -/
structure Balanced (cs : List Char) : Prop where
  nonneg : ∀ p, p <+: cs → 0 ≤ depth p
  depth_eq : depth cs = 0

/-- **A text in parentheses**: blanks, then a parenthesis, and the depth is back to zero at the last
character and nowhere before. -/
inductive Enclosed : List Char → Prop
  | blank {cs : List Char} : Enclosed cs → Enclosed (' ' :: cs)
  | group {rest : List Char} : (∀ p, p <+: rest → (depth ('(' :: p) = 0 ↔ p = rest)) →
    Enclosed ('(' :: rest)

theorem depth_open (cs : List Char) : depth ('(' :: cs) = 1 + depth cs := by
  simp [depth]
  omega

theorem depth_close (cs : List Char) : depth (')' :: cs) = depth cs - 1 := by
  simp [depth]
  omega

theorem depth_cons (hopen : c ≠ '(') (hclose : c ≠ ')') (cs : List Char) :
    depth (c :: cs) = depth cs := by
  simp [depth, hopen, hclose]

/-- What holds of the beginnings of a text, by its first character. -/
theorem forall_prefix_cons {P : List Char → Prop} :
    (∀ p, p <+: c :: cs → P p) ↔ P [] ∧ ∀ p, p <+: cs → P (c :: p) := by
  simp only [prefix_cons_iff]
  constructor
  · intro h
    exact ⟨h [] (.inl rfl), fun p hp => h _ (.inr ⟨p, rfl, hp⟩)⟩
  · rintro ⟨hnil, hcons⟩ p (rfl | ⟨q, rfl, hq⟩)
    · exact hnil
    · exact hcons q hq

/-- **The scan inside of parentheses** succeeds if the depth is not back to zero before the end. -/
theorem isGroup_iff (hd : 1 ≤ d) (hclosed : d + depth cs = 0) :
    isGroup d cs = true ↔ ∀ p, p <+: cs → d + depth p = 0 → p = cs := by
  induction cs generalizing d with
  | nil =>
    have hnil : depth [] = 0 := rfl
    omega
  | cons c cs ih =>
    have hnil : d + depth [] ≠ 0 := by
      simp [depth]
      omega
    rw [forall_prefix_cons]
    simp only [hnil, false_implies, true_and, cons.injEq]
    by_cases hopen : c = '('
    · subst hopen
      simp only [depth_open, ← Int.add_assoc] at hclosed ⊢
      exact ih (by omega) hclosed
    by_cases hclose : c = ')'
    · subst hclose
      simp only [depth_close] at hclosed ⊢
      by_cases hone : d = 1
      · -- this closes the first parenthesis, so nothing may follow
        subst hone
        cases cs with
        | nil => simp [isGroup]
        | cons c cs =>
          have hfalse : isGroup 1 (')' :: c :: cs) = false := rfl
          simp only [hfalse, Bool.false_eq_true, false_iff, not_forall]
          exact ⟨[], nil_prefix, by decide, by simp⟩
      · have hscan : isGroup d (')' :: cs) = isGroup (d - 1) cs := by simp [isGroup, hone]
        have hdepth (p : List Char) : d + (depth p - 1) = d - 1 + depth p := by omega
        simp only [hdepth] at hclosed ⊢
        rw [hscan]
        exact ih (by omega) hclosed
    · simp only [depth_cons hopen hclose] at hclosed ⊢
      rw [isGroup_cons hopen hclose hd]
      exact ih hd hclosed

theorem Enclosed.depth_eq (h : Enclosed cs) : depth cs = 0 := by
  induction h with
  | blank _ ih => exact ih
  | @group rest h => exact (h rest (prefix_refl rest)).mpr rfl

/-- The scan of what stands behind the first parenthesis. -/
theorem isGroup_open_iff (hclosed : depth ('(' :: cs) = 0) :
    isGroup 0 ('(' :: cs) = true ↔ Enclosed ('(' :: cs) := by
  have hscan := isGroup_iff (Int.le_refl 1) (depth_open cs ▸ hclosed)
  simp only [← depth_open] at hscan
  rw [show isGroup 0 ('(' :: cs) = isGroup 1 cs from rfl, hscan]
  constructor
  · exact fun h => .group fun p hp => ⟨h p hp, fun heq => heq ▸ hclosed⟩
  · rintro (_ | h) p hp
    exact (h p hp).mp

theorem Enclosed.isGroup (h : Enclosed cs) : isGroup 0 cs = true := by
  induction h with
  | blank _ ih => exact ih
  | group h => exact (isGroup_open_iff (Enclosed.group h).depth_eq).mpr (.group h)

/-- **The scan finds texts in parentheses.** -/
theorem isGroup_iff_enclosed (hbalanced : Balanced cs)
    (hword : ∃ c ∈ cs, c ≠ '(' ∧ c ≠ ')' ∧ c ≠ ' ') : isGroup 0 cs = true ↔ Enclosed cs := by
  refine ⟨fun h => ?_, Enclosed.isGroup⟩
  induction cs with
  | nil => simp at hword
  | cons c cs ih =>
    obtain ⟨hnonneg, hclosed⟩ := hbalanced
    by_cases hopen : c = '('
    · subst hopen
      exact (isGroup_open_iff hclosed).mp h
    by_cases hclose : c = ')'
    · subst hclose
      have hfirst := hnonneg [')'] (by simp)
      simp [depth] at hfirst
    by_cases hblank : c = ' '
    · subst hblank
      refine .blank (ih ⟨fun p hp => ?_, hclosed⟩ ?_ h)
      · exact hnonneg (' ' :: p) ((prefix_cons_inj ' ').mpr hp)
      · obtain ⟨x, hx, hne⟩ := hword
        exact ⟨x, (mem_cons.mp hx).resolve_left hne.2.2, hne⟩
    · simp [Code.isGroup] at h

/-- A pair that is added goes around the whole text. -/
theorem Balanced.enclosed (h : Balanced cs) : Enclosed ('(' :: (cs ++ [')'])) := by
  refine .group fun p hp => ?_
  rw [depth_open]
  rcases prefix_concat_iff.mp hp with rfl | hp
  · have hclosed := h.depth_eq
    simp [depth] at hclosed ⊢
    omega
  · have hnonneg := h.nonneg p hp
    refine iff_of_false (by omega) ?_
    rintro rfl
    have hlength := hp.length_le
    rw [length_append, length_singleton] at hlength
    omega

/-- **Code is in one pair of parentheses once it is put in parentheses**, which adds none if it is in
one already. -/
theorem parenthesize_encloses (code : String) (hbalanced : Balanced code.toList)
    (hword : ∃ c ∈ code.toList, c ≠ '(' ∧ c ≠ ')' ∧ c ≠ ' ') :
    (parenthesize code = code ∨ parenthesize code = "(" ++ code ++ ")") ∧
      Enclosed (parenthesize code).toList ∧
      (parenthesize code = code ↔ Enclosed code.toList) ∧
      parenthesize (parenthesize code) = parenthesize code := by
  have hsame {r : String} (h : Enclosed r.toList) : parenthesize r = r := if_pos h.isGroup
  by_cases h : Enclosed code.toList
  · rw [hsame h]
    exact ⟨.inl rfl, h, iff_of_true rfl h, hsame h⟩
  · have hnew : parenthesize code = "(" ++ code ++ ")" :=
      if_neg (mt (isGroup_iff_enclosed hbalanced hword).mp h)
    have henclosed : Enclosed ("(" ++ code ++ ")").toList := by
      simpa using hbalanced.enclosed
    rw [hnew]
    refine ⟨.inr rfl, henclosed, iff_of_false (fun heq => h ?_) h, hsame henclosed⟩
    rwa [heq] at henclosed

/-- Two groups are not one. -/
theorem parenthesize_encloses_product :
    Balanced "(a) * (b)".toList ∧ parenthesize "(a) * (b)" = "((a) * (b))" ∧
      Enclosed "((a) * (b))".toList ∧ parenthesize "((a) * (b))" = "((a) * (b))" := by
  have hinits : ∀ p ∈ "(a) * (b)".toList.inits, 0 ≤ depth p := by decide
  have hbalanced : Balanced "(a) * (b)".toList :=
    ⟨fun p hp => hinits p ((mem_inits p _).mpr hp), by decide⟩
  have hnew : parenthesize "(a) * (b)" = "((a) * (b))" := by decide
  have hword : ∃ c ∈ "(a) * (b)".toList, c ≠ '(' ∧ c ≠ ')' ∧ c ≠ ' ' := ⟨'a', by decide⟩
  obtain ⟨-, henclosed, -, hagain⟩ := parenthesize_encloses "(a) * (b)" hbalanced hword
  rw [hnew] at henclosed hagain
  exact ⟨hbalanced, hnew, henclosed, hagain⟩

end Quantity.Code
