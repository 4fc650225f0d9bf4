import Quantity.Proofs.Declaration.Words
import Quantity.Proofs.Model.FaultReports

/-!
# The meaning of a text without errors

A text without errors leaves the entries of its declarations behind those that were there before,
and families and connections are all that is added to them (`exists_meaning_of_extend`). So late
entries are called by words of the text, and late scales have names of their own
(`scalesDeclared_of_extend`).
-/

namespace Quantity

open List

namespace Elaborate

variable {options : Options} {m : Model} {late : List UnitEntry} {decls : List ScaleDecl}
  {scales : List ScaleEntry}

theorem ScaleFits.name_eq (h : ScaleFits options m late d s) : s.name = d.name := by
  obtain ⟨i, u, offset, -, -, -, -, rfl⟩ := encodeScale_eq_ok_iff.mp h.meaning
  rfl

theorem ScalesFit.map_name (h : ScalesFit options m late decls scales) :
    scales.map (·.name) = decls.map (·.name) := by
  rw [eq_comm, ← forall₂_eq_eq_eq, forall₂_map_left_iff, forall₂_map_right_iff]
  exact h.fits.imp fun _ _ hfits => hfits.name_eq.symm

end Elaborate

namespace Model

open Elaborate

variable {options : Options} {m : Model} {text : String} {c : Compilation}

/-- **A text without errors leaves what its declarations mean**, but for families and
connections. -/
theorem exists_meaning_of_extend (hc : m.extend text options = .ok c) (hok : c.isSuccess = true) :
    ∃ late scales, Sound options m (Declarations.read options.source text).1 late scales ∧
      c.model.units.map (·.bare) = (m.units ++ kept options m late).map (·.bare) ∧
      c.model.scales.map (·.bare) = (m.scales ++ scales).map (·.bare) := by
  obtain ⟨late, scales, hsound, -, -, hmodel⟩ := exists_sound_of_extend hc hok
  refine ⟨late, scales, hsound, ?_, ?_⟩
  · rw [hmodel]
    exact map_bare_units (extended options m late scales) options.firstFamily
  · rw [hmodel]
    exact map_bare_scales (extended options m late scales) options.firstFamily

/-! ### Late scales -/

theorem findScale?_eq_none_iff : m.findScale? name = none ↔ ∀ s ∈ m.scales, s.name ≠ name := by
  unfold findScale?
  simp only [getLast?_places_eq_none_iff, decide_eq_false_iff_not]

/-- **What can be relied on for late scales**: they have a meaning and names of their own, which
are words, and no earlier scale has such a name if names must not be used again. -/
structure ScalesDeclared (options : Options) (m c : Model) : Prop where
  early : ∀ i s, i < m.scales.length → c.scales[i]? = some s → ∃ t ∈ m.scales, t.name = s.name
  valid : ∀ e ∈ c.scales.drop m.scales.length, e.valid = true
  names : ((c.scales.drop m.scales.length).map (·.name)).Nodup
  word : ∀ e ∈ c.scales.drop m.scales.length, IsWord e.name
  unused : options.redeclaration = .reject →
    ∀ e ∈ c.scales.drop m.scales.length, ∀ s ∈ m.scales, s.name ≠ e.name

theorem scalesDeclared_of_extend (hc : m.extend text options = .ok c) (hok : c.isSuccess = true) :
    ScalesDeclared options m c.model := by
  obtain ⟨late, scales, hsound, -, hscales⟩ := exists_meaning_of_extend hc hok
  have hwords := (Declarations.read_worded options.source text).2
  have hlate : (c.model.scales.drop m.scales.length).map (·.bare) = scales.map (·.bare) := by
    have hdrop := congrArg (List.drop m.scales.length) hscales
    rwa [← map_drop, ← map_drop, drop_left] at hdrop
  -- a late scale, its declaration, and what it was before it got into its family
  have hdecl : ∀ e ∈ c.model.scales.drop m.scales.length, ∃ s d, s.bare = e.bare ∧
      d ∈ (Declarations.read options.source text).1.scales ∧
      ScaleFits options m (kept options m late) d s := by
    intro e he
    obtain ⟨s, hs, hbare⟩ := exists_mem_of_map_eq hlate he
    obtain ⟨d, hd, hfits⟩ := hsound.scalesFit.exists_mem hs
    exact ⟨s, d, hbare, hd, hfits⟩
  constructor
  case early =>
    intro i s hi hs
    obtain ⟨t, ht, hbare⟩ := exists_getElem?_of_map_eq hscales hs
    rw [getElem?_append_left hi] at ht
    exact ⟨t, mem_of_getElem? ht, (ScaleEntry.eq_of_bare_eq hbare).1⟩
  case valid =>
    intro e he
    obtain ⟨s, d, hbare, -, hfits⟩ := hdecl e he
    obtain ⟨i, u, offset, -, -, -, -, rfl⟩ := encodeScale_eq_ok_iff.mp hfits.meaning
    exact (ScaleEntry.eq_of_bare_eq hbare).2.2.1.symm
  case names =>
    have hnames : (c.model.scales.drop m.scales.length).map (·.name) = scales.map (·.name) := by
      have hmap := congrArg (List.map (·.name)) hlate
      rwa [map_map, map_map] at hmap
    rw [hnames, hsound.scalesFit.map_name]
    exact hsound.scalesFit.nodup
  case word =>
    intro e he
    obtain ⟨s, d, hbare, hd, hfits⟩ := hdecl e he
    rw [← (ScaleEntry.eq_of_bare_eq hbare).1, hfits.name_eq]
    exact (hwords d hd).name.isWord
  case unused =>
    intro hreject e he s hs
    obtain ⟨t, d, hbare, -, hfits⟩ := hdecl e he
    rw [← (ScaleEntry.eq_of_bare_eq hbare).1, hfits.name_eq]
    exact findScale?_eq_none_iff.mp (hfits.name hreject) s hs

end Model

end Quantity
