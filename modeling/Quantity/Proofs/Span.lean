import Quantity.Span
import Mathlib.Tactic.SplitIfs

/-!
# Places in a text that is put behind another

Where a text stands behind another one, its places are further on by the length of the other text.
Columns are further on only on the first line.
-/

namespace Quantity

namespace Position

/-- The place `q` of a text that is put behind the place `p`. -/
def behind (p q : Position) : Position where
  offset := q.offset + p.offset
  line := q.line + (p.line - 1)
  column := if q.line = 1 then q.column + (p.column - 1) else q.column

def Counts (p : Position) : Prop := 1 ≤ p.line ∧ 1 ≤ p.column

theorem counts_start : Counts start := ⟨Nat.le_refl 1, Nat.le_refl 1⟩

theorem Counts.next {p : Position} (h : p.Counts) (c : Char) : (p.next c).Counts := by
  obtain ⟨hline, hcolumn⟩ := h
  unfold Position.next Counts
  split_ifs <;> dsimp only <;> omega

theorem Counts.after {p : Position} (h : p.Counts) (cs : List Char) : (p.after cs).Counts := by
  induction cs generalizing p with
  | nil => exact h
  | cons c cs ih => exact ih (h.next c)

theorem after_append (p : Position) (cs ds : List Char) :
    p.after (cs ++ ds) = (p.after cs).after ds := List.foldl_append

theorem behind_start {p : Position} (h : p.Counts) : p.behind start = p := by
  obtain ⟨hline, hcolumn⟩ := h
  simp only [behind, start, if_true]
  congr 1 <;> omega

theorem behind_next (p : Position) {q : Position} (h : q.Counts) (c : Char) :
    p.behind (q.next c) = (p.behind q).next c := by
  obtain ⟨hline, hcolumn⟩ := h
  unfold next
  split_ifs with hc
  · have hne : q.line + 1 ≠ 1 := by omega
    simp only [behind, if_neg hne]
    congr 1 <;> omega
  · by_cases hfirst : q.line = 1
    · simp only [behind, if_pos hfirst]
      congr 1 <;> omega
    · simp only [behind, if_neg hfirst]
      congr 1
      omega

theorem behind_after (p : Position) {q : Position} (h : q.Counts) (cs : List Char) :
    p.behind (q.after cs) = (p.behind q).after cs := by
  induction cs generalizing q with
  | nil => rfl
  | cons c cs ih =>
    refine (ih (h.next c)).trans ?_
    rw [behind_next p h]
    rfl

end Position

namespace Span

/-- The span `s` of a text that is put behind the place `p`. -/
def behind (p : Position) (s : Span) : Span where
  start := s.start + p.offset
  stop := s.stop + p.offset
  line := s.line + (p.line - 1)
  column := if s.line = 1 then s.column + (p.column - 1) else s.column
  endLine := s.endLine + (p.line - 1)
  endColumn := if s.endLine = 1 then s.endColumn + (p.column - 1) else s.endColumn

theorem behind_ofText (p : Position) {q : Position} (h : q.Counts) (cs : List Char) :
    (ofText q cs).behind p = ofText (p.behind q) cs := by
  unfold ofText
  rw [← p.behind_after h, ← p.behind_after h]
  rfl

theorem behind_upTo (p : Position) (a b : Span) :
    (a.upTo b).behind p = (a.behind p).upTo (b.behind p) := by
  have hle : (a.behind p).start ≤ (b.behind p).start ↔ a.start ≤ b.start :=
    Nat.add_le_add_iff_right
  unfold upTo
  simp only [hle]
  split_ifs
  · simp only [behind, Nat.add_max_add_right]
  · simp only [behind, Nat.add_max_add_right]

end Span

end Quantity
