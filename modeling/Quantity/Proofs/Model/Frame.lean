import Quantity.Proofs.Model.Extended

/-!
# What extensions leave alone

A model is built from texts, each of which extends what came before. Whatever a text says, the units
and scales that were there before it stay where they are and as they are (`extend_frame`): they only
get more relatives, and units take part in other operations.
-/

namespace Quantity.Model

open Elaborate

/-- **Models that are built from texts**, with any options. -/
inductive Reached : Model → Prop
  | empty : Reached {}
  | extend {m : Model} {text : String} {options : Options} {c : Compilation} (hm : Reached m)
      (hc : m.extend text options = .ok c) : Reached c.model

/-- A number that is larger than all in use, and not below the first one asked for. -/
def IsFresh (firstFamily : FamilyId) (m : Model) (f : FamilyId) : Prop :=
  firstFamily ≤ f ∧ ∀ g ∈ m.familyIds, g < f

theorem settled_empty : Settled {} where
  units := by simp
  scales := by simp
  linked := ⟨rfl, rfl⟩

variable {m : Model} {text : String} {options : Options} {c : Compilation}

/-- **Models that are built from texts are settled.** -/
theorem Reached.settled (h : m.Reached) : m.Settled := by
  induction h with
  | empty => exact settled_empty
  | extend _ hc ih => exact ih.extend hc

theorem late_extend (hc : m.extend text options = .ok c) :
    c.model.lateUnits = m.units.length ∧ c.model.lateScales = m.scales.length := by
  obtain ⟨e, _, us, ss, -, hadds, -, hmodel⟩ := exists_extended hc
  rw [hmodel, hadds.eq]
  exact ⟨rfl, rfl⟩

section Grows

variable {firstFamily : FamilyId} {c : Model} {us : List UnitEntry} {ss : List ScaleEntry}
  {low mid high : Nat}

theorem Grows.isFresh (h : Grows firstFamily m c us ss low mid high) (hlow : low ≤ f.toNat) :
    m.IsFresh firstFamily f := by
  obtain ⟨hfirst, hids⟩ := h.free
  constructor
  · exact UInt32.le_iff_toNat_le.mpr (Nat.le_trans hfirst hlow)
  · exact fun g hg => UInt32.lt_iff_toNat_lt.mpr (Nat.lt_of_lt_of_le (hids g hg) hlow)

end Grows

/-- **What an extension leaves alone**: the entries of the model keep their places and everything
they have, but for relatives that are added behind the others, all of them late, and the operations
of units. A late entry is in a family of earlier entries, or in one with a fresh number. -/
theorem extend_frame (hm : m.Reached) (text : String) (options : Options) :
    ((∃ c, m.extend text options = .ok c) ↔ m.HasRoomFor text options) ∧
      ∀ c, m.extend text options = .ok c →
      c.model.lateUnits = m.units.length ∧ c.model.lateScales = m.scales.length ∧
      (∀ (i : Nat) (u : UnitEntry), m.units[i]? = some u → ∃ added operations,
        c.model.units[i]? = some { u with relatives := u.relatives ++ added, operations } ∧
          ∀ j ∈ added, c.model.lateUnits ≤ j ∧ j < c.model.units.length) ∧
      (∀ (i : Nat) (s : ScaleEntry), m.scales[i]? = some s → ∃ added,
        c.model.scales[i]? = some { s with relatives := s.relatives ++ added } ∧
          ∀ j ∈ added, c.model.lateScales ≤ j ∧ j < c.model.scales.length) ∧
      (∀ (i : Nat) (u : UnitEntry) (f : FamilyId), c.model.lateUnits ≤ i →
        c.model.units[i]? = some u → u.family = some f →
          (∃ v ∈ m.units, v.family = some f) ∨ m.IsFresh options.firstFamily f) ∧
      ∀ (i : Nat) (s : ScaleEntry) (f : FamilyId), c.model.lateScales ≤ i →
        c.model.scales[i]? = some s → s.family = some f →
          (∃ t ∈ m.scales, t.family = some f) ∨ m.IsFresh options.firstFamily f := by
  refine ⟨m.exists_extend_iff text options, fun c hc => ?_⟩
  obtain ⟨hunits, hscales⟩ := late_extend hc
  refine ⟨hunits, hscales, ?_, ?_, ?_⟩
  · rw [hunits]
    exact fun i u hu => hm.settled.exists_kept_unit hc hu
  · rw [hscales]
    exact fun i s hs => hm.settled.exists_kept_scale hc hs
  · rw [hunits, hscales]
    obtain ⟨us, ss, low, mid, high, hgrows⟩ := hm.settled.exists_grows hc
    refine ⟨fun i u f hi hu hf => ?_, fun i s f hi hs hf => ?_⟩
    · exact (hgrows.joinedUnits.late_cases hgrows.units
        (fun _ _ h => (UnitEntry.eq_of_unlinked_eq h).1) hi hu hf).imp_right hgrows.isFresh
    · exact (hgrows.joinedScales.late_cases hgrows.scales
        (fun _ _ h => (ScaleEntry.eq_of_unlinked_eq h).1) hi hs hf).imp_right fun hmid =>
          hgrows.isFresh (Nat.le_trans hgrows.le.1 hmid)

/-- Lengths, and heights above the level of the sea. -/
def lengths : String :=
  "unit Meter \"m\" = <Length>; unit Foot \"ft\" = 0.3 * Meter; scale Height Sea = 0 from Meter;"

/-- More lengths with feet once more, grams, and depths below the level of the sea. -/
def moreLengths : String :=
  "unit Yard \"yd\" = 3 * Foot; unit Foot \"ft\" = 0.3 * Meter; unit Gram \"g\" = <Mass>;
   scale Depth Sea = 1 from Foot;"

/-- Yards become relatives of meters and feet. The feet that are declared again are removed, and
grams take their place. -/
theorem extend_frame_moreLengths :
    ∃ c d, compile lengths { kind := .decimal } = .ok c ∧ c.model.Reached ∧
      c.model.HasRoomFor moreLengths { kind := .decimal, redeclaration := .sameUnit } ∧
      c.model.extend moreLengths { kind := .decimal, redeclaration := .sameUnit } = .ok d ∧
      c.model.units.map (·.relatives) = [[1], [0]] ∧
      d.model.units.map (·.relatives) = [[1, 2], [0, 2], [0, 1], []] ∧
      (∀ (i : Nat) (u : UnitEntry), c.model.units[i]? = some u → ∃ added operations,
        d.model.units[i]? = some { u with relatives := u.relatives ++ added, operations } ∧
          ∀ j ∈ added, d.model.lateUnits ≤ j ∧ j < d.model.units.length) ∧
      ∀ (i : Nat) (u : UnitEntry) (f : FamilyId), d.model.lateUnits ≤ i →
        d.model.units[i]? = some u → u.family = some f →
          (∃ v ∈ c.model.units, v.family = some f) ∨ c.model.IsFresh 0 f := by
  obtain ⟨c, hc, d, hd, hbefore, hafter⟩ :
      ∃ c, compile lengths { kind := .decimal } = .ok c ∧
        ∃ d, c.model.extend moreLengths { kind := .decimal, redeclaration := .sameUnit } = .ok d ∧
          c.model.units.map (·.relatives) = [[1], [0]] ∧
          d.model.units.map (·.relatives) = [[1, 2], [0, 2], [0, 1], []] := by
    decide +kernel
  have hreached : c.model.Reached := .extend .empty hc
  obtain ⟨hroom, hframe⟩ :=
    extend_frame hreached moreLengths { kind := .decimal, redeclaration := .sameUnit }
  obtain ⟨-, -, hunits, -, hfamilies, -⟩ := hframe d hd
  exact ⟨c, d, hc, hreached, hroom.mp ⟨d, hd⟩, hd, hbefore, hafter, hunits, hfamilies⟩

end Quantity.Model
