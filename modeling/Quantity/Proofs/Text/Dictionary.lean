import Mathlib.Tactic.SplitIfs
import Quantity.Text.Dictionary

/-!
# Names and values of dictionaries

A value that is put under a name is found under it, and nothing else changes. Names stay in order,
so a dictionary has as many entries as names that were ever used.
-/

namespace Quantity.Text.Dictionary

open List

variable {α : Type} {d : Dictionary α} {name other : String} {x : α}

/-! ### One value -/

theorem get?_insert :
    (d.insert name x).get? other = if name = other then some x else d.get? other := by
  simp only [get?, insert]
  induction d.entries with
  | nil => by_cases hother : name = other <;> simp [insertEntry]
  | cons e es ih =>
    rw [insertEntry]
    by_cases hlt : name < e.1
    · rw [if_pos hlt]
      by_cases hother : name = other <;> simp [hother]
    · rw [if_neg hlt]
      by_cases hname : name = e.1
      · by_cases hother : name = other <;> simp [hother, ← hname]
      · rw [if_neg hname]
        by_cases hfound : e.1 = other
        · have hother : name ≠ other := fun h => hname (h.trans hfound.symm)
          simp [hfound, hother]
        · simp [hfound, ih]

theorem contains_iff : d.contains name = true ↔ name ∈ d.names := by
  simp [contains, names]

theorem mem_names_of_get? (h : d.get? name = some x) : name ∈ d.names := by
  obtain ⟨e, he, -⟩ := Option.map_eq_some_iff.mp h
  have hname := find?_some he
  exact mem_map.mpr ⟨e, mem_of_find?_eq_some he, of_decide_eq_true hname⟩

theorem mem_names_insert : other ∈ (d.insert name x).names ↔ other = name ∨ other ∈ d.names := by
  simp only [names, insert]
  induction d.entries with
  | nil => simp [insertEntry]
  | cons e es ih =>
    rw [insertEntry]
    split_ifs with hlt hname
    · simp
    · simp [hname]
    · simp only [map_cons, mem_cons, ih]
      exact or_left_comm

theorem size_eq : d.size = d.names.length := (length_map _).symm

/-- Names stand in order, each of them once. -/
def Ordered (d : Dictionary α) : Prop := d.names.Pairwise (· < ·)

theorem Ordered.insert (h : d.Ordered) : (d.insert name x).Ordered := by
  obtain ⟨entries⟩ := d
  induction entries with
  | nil => exact pairwise_singleton _ _
  | cons e es ih =>
    obtain ⟨hfirst, hrest⟩ := pairwise_cons.mp h
    simp only [Dictionary.insert, insertEntry]
    split_ifs with hlt hname
    · refine pairwise_cons.mpr ⟨fun n hn => ?_, h⟩
      rcases mem_cons.mp hn with rfl | hn
      · exact hlt
      · exact String.lt_trans hlt (hfirst n hn)
    · exact pairwise_cons.mpr ⟨fun n hn => hname ▸ hfirst n hn, hrest⟩
    · refine pairwise_cons.mpr ⟨fun n hn => ?_, ih hrest⟩
      rcases mem_names_insert (d := ⟨es⟩).mp hn with rfl | hn
      · exact Std.lt_of_le_of_ne hlt (Ne.symm hname)
      · exact hfirst n hn

theorem Ordered.nodup (h : d.Ordered) : d.names.Nodup :=
  List.Pairwise.imp (fun {a b} (hlt : a < b) (heq : a = b) => String.lt_irrefl b (heq ▸ hlt)) h

/-! ### Many values -/

/-- Put values under their names, one after the other. -/
def insertAll (d : Dictionary α) (xs : List (String × α)) : Dictionary α :=
  xs.foldl (fun d e => d.insert e.1 e.2) d

theorem Ordered.insertAll (h : d.Ordered) : (d.insertAll xs).Ordered := by
  induction xs generalizing d with
  | nil => exact h
  | cons e es ih => exact ih h.insert

theorem mem_names_insertAll :
    name ∈ (d.insertAll xs).names ↔ name ∈ xs.map (·.1) ∨ name ∈ d.names := by
  induction xs generalizing d with
  | nil => simp [insertAll]
  | cons e es ih =>
    have hstep := ih (d := d.insert e.1 e.2)
    rw [mem_names_insert] at hstep
    rw [map_cons, mem_cons, or_assoc, or_left_comm]
    exact hstep

theorem get?_insertAll_of_not_mem (h : name ∉ xs.map (·.1)) :
    (d.insertAll xs).get? name = d.get? name := by
  induction xs generalizing d with
  | nil => rfl
  | cons e es ih =>
    rw [map_cons, mem_cons, not_or] at h
    refine (ih h.2).trans ?_
    rw [get?_insert, if_neg (Ne.symm h.1)]

theorem get?_insertAll (hxs : (xs.map (·.1)).Nodup) (h : (name, x) ∈ xs) :
    (d.insertAll xs).get? name = some x := by
  induction xs generalizing d with
  | nil => cases h
  | cons e es ih =>
    rw [map_cons, nodup_cons] at hxs
    rcases mem_cons.mp h with rfl | h
    · refine (get?_insertAll_of_not_mem hxs.1).trans ?_
      rw [get?_insert, if_pos rfl]
    · exact ih hxs.2 h

end Quantity.Text.Dictionary
