import Quantity.Proofs.Model.Exposed
import Quantity.Proofs.Model.FirstText

/-!
# Families that scales share

Scales are in one family if they are of one group: they have the same point of reference, and their
units are in one family. Each text starts from the families that there are, so that this has to hold
over any number of texts. `Reached.scaleFamily_iff_sameGroup` says that a group is never divided,
and that two groups are never put together.
-/

namespace Quantity.Model

open Elaborate List

/-- More units change nothing for a scale over a unit that has a family. -/
theorem unitFamily?_append (h : (unitFamily? us s).isSome = true) (late : List UnitEntry) :
    unitFamily? (us ++ late) s = unitFamily? us s := by
  obtain ⟨f, hf⟩ := Option.isSome_iff_exists.mp h
  obtain ⟨i, hi, hf'⟩ := Option.bind_eq_some_iff.mp hf
  obtain ⟨u, hu, hfamily⟩ := Option.bind_eq_some_iff.mp hf'
  have hlate : (us ++ late)[i]? = some u :=
    (List.getElem?_append_left (lt_of_getElem? hu)).trans hu
  rw [hf]
  exact Option.bind_eq_some_iff.mpr ⟨i, hi, Option.bind_eq_some_iff.mpr ⟨u, hlate, hfamily⟩⟩

/-- Connections play no part in what a scale shares with its family. -/
theorem familyKey_of_unlinked_eq {s t : ScaleEntry} (h : s.unlinked = t.unlinked)
    (units : List UnitEntry) : s.familyKey units = t.familyKey units := by
  show s.unlinked.familyKey units = t.unlinked.familyKey units
  rw [h]

theorem unitFamily?_of_unlinked_eq (h : us.map (·.unlinked) = vs.map (·.unlinked)) :
    unitFamily? us = unitFamily? vs := by
  have hmap := congrArg (List.map (·.family)) h
  rw [map_map, map_map] at hmap
  exact unitFamily?_congr hmap

/-- The unit of every scale that has a meaning is in a family. -/
def Anchored (m : Model) : Prop :=
  ∀ s ∈ m.scales, s.valid = true → (unitFamily? m.units s).isSome = true

/-- **Scales of one group are in one family.** -/
def Gathered (m : Model) : Prop :=
  ∀ s ∈ m.scales, ∀ t ∈ m.scales, s.valid = true → t.valid = true → SameGroup m.units s t →
    s.family = t.family

/-- **Scales of one family are of one group.** -/
def Separated (m : Model) : Prop :=
  ∀ (i j : Nat) (s t : ScaleEntry) (f : FamilyId), i ≠ j → m.scales[i]? = some s →
    m.scales[j]? = some t → s.family = some f → t.family = some f → SameGroup m.units s t

theorem Anchored.familyKey_append {m : Model} (h : m.Anchored) (hs : s ∈ m.scales)
    (hvalid : s.valid = true) (late : List UnitEntry) :
    s.familyKey (m.units ++ late) = s.familyKey m.units := by
  unfold ScaleEntry.familyKey
  rw [unitFamily?_append (h s hs hvalid)]

/-! ### One text -/

section Extend

variable {m : Model} {text : String} {options : Options} {c : Compilation}

theorem Anchored.extend (hm : m.Settled) (h : m.Anchored) (hc : m.extend text options = .ok c) :
    c.model.Anchored := by
  obtain ⟨e, ds, us, ss, -, hadds, -, hmodel⟩ := exists_extended hc
  obtain ⟨late, hunits, -⟩ := exists_late_units hm hadds options.firstFamily
  intro t ht hvalid
  rw [hmodel] at ht ⊢
  obtain ⟨s, hs, hst⟩ := exists_mem_of_map_eq (map_bare_scales e options.firstFamily) ht
  obtain ⟨-, -, hsvalid, hsunit⟩ := ScaleEntry.eq_of_bare_eq hst
  have hunit (units : List UnitEntry) : unitFamily? units t = unitFamily? units s := by
    unfold unitFamily?
    rw [hsunit]
  rw [unitFamily?_of_unlinked_eq (map_unlinked_units e _ _), hunit]
  rw [hadds.eq] at hs
  rcases mem_append.mp hs with hs | hs
  · have hanchored := h s hs (hsvalid.trans hvalid)
    rw [hunits, unitFamily?_append hanchored]
    exact hanchored
  · exact isSome_unitFamily?_numberedUnits hm hadds _ hs (hsvalid.trans hvalid)

/-- **The families of scales are numbered by groups**: those that there are keep their numbers. -/
theorem Gathered.exists_numbering (hm : m.Settled) (hanchored : m.Anchored) (h : m.Gathered)
    (hc : m.extend text options = .ok c) :
    ∃ n : Numbering (String × FamilyId), ∀ t ∈ c.model.scales, t.valid = true → ∀ key,
      t.familyKey c.model.units = some key → n.get? key = t.family := by
  obtain ⟨e, ds, us, ss, -, hadds, -, hmodel⟩ := exists_extended hc
  obtain ⟨lateUnits, hunits, -⟩ := exists_late_units hm hadds options.firstFamily
  obtain ⟨late, hscales, hlate, hpairs⟩ := exists_late_scales hm hadds options.firstFamily
  refine ⟨((e.scaleNumbering options.firstFamily).assign (e.scaleKeys options.firstFamily)).2, ?_⟩
  intro t ht hvalid key hkey
  rw [hmodel] at ht hkey
  rw [ScaleEntry.familyKey, unitFamily?_of_unlinked_eq (map_unlinked_units e _ _)] at hkey
  obtain ⟨s, hs, hst⟩ := exists_mem_of_map_eq (map_unlinked_scales e _ _) ht
  obtain ⟨hfamily, hsvalid⟩ := ScaleEntry.eq_of_unlinked_eq hst
  have hskey : s.familyKey (e.numberedUnits options.firstFamily) = some key :=
    (familyKey_of_unlinked_eq hst _).trans hkey
  have hsvalid := hsvalid.trans hvalid
  rw [← hfamily]
  rw [hscales] at hs
  rcases mem_append.mp hs with hs | hs
  · -- the number of the group is that of its first scale, which is an earlier one
    obtain ⟨f, hf⟩ := Option.isSome_iff_exists.mp ((hm.scales s hs).trans hsvalid)
    rw [hf]
    refine Numbering.get?_assign ?_ _
    have hknown : ((e.scaleNumbering options.firstFamily).get? key).isSome = true := by
      rw [Numbering.get?, Option.isSome_map, find?_isSome]
      refine ⟨(key, f), mem_filterMap.mpr ⟨s, ?_, ?_⟩, decide_eq_true rfl⟩
      · rw [hadds.eq]
        exact mem_append_left _ hs
      · obtain ⟨point, g⟩ := key
        obtain ⟨hpoint, hunit⟩ := ScaleEntry.familyKey_eq_some_iff.mp hskey
        simp [hsvalid, hf, hpoint, hunit]
    obtain ⟨g, hg⟩ := Option.isSome_iff_exists.mp hknown
    obtain ⟨r, hr, hrf, hrkey⟩ := exists_of_mem_scaleFamilies (Numbering.mem_of_get? hg)
    have hr := hadds.mem_of_family_scale hr hrf
    have hrvalid : r.valid = true := by
      rw [← hm.scales r hr, hrf]
      rfl
    have hgroup : SameGroup m.units r s := by
      rw [hunits] at hrkey hskey
      rw [sameGroup_iff, ← hanchored.familyKey_append hr hrvalid lateUnits,
        ← hanchored.familyKey_append hs hsvalid lateUnits, hrkey, hskey]
      exact ⟨rfl, rfl⟩
    rw [hg, ← hrf, h r hr s hs hrvalid hsvalid hgroup, hf]
  · obtain ⟨f, hf⟩ := Option.isSome_iff_exists.mp ((hlate s hs).trans hsvalid)
    rw [hf]
    refine Numbering.get?_assign_of_mem _ ?_
    rw [← hpairs]
    exact mem_filterMap.mpr ⟨s, hs, by rw [hf, hskey, Option.map_some]⟩

theorem Gathered.extend (hm : m.Settled) (hanchored : m.Anchored) (h : m.Gathered)
    (hc : m.extend text options = .ok c) : c.model.Gathered := by
  obtain ⟨n, hn⟩ := h.exists_numbering hm hanchored hc
  intro s hs t ht hsvalid htvalid hgroup
  obtain ⟨hsome, hkey⟩ := sameGroup_iff.mp hgroup
  obtain ⟨key, hs'⟩ := Option.isSome_iff_exists.mp hsome
  rw [← hn s hs hsvalid key hs', ← hn t ht htvalid key (hkey.symm.trans hs')]

end Extend

section Grows

variable {firstFamily : FamilyId} {m c : Model} {us : List UnitEntry} {ss : List ScaleEntry}
  {low mid high : Nat} (h : Grows firstFamily m c us ss low mid high)
include h

/-- A scale in a family stands for an earlier one of its group, maybe itself, or the family is
new. -/
theorem Grows.stands_for_cases (ht : (m.scales ++ ss)[j]? = some t) (hf : t.family = some f) :
    (∃ k u, m.scales[k]? = some u ∧ u.family = some f ∧
        t.familyKey (m.units ++ us) = u.familyKey (m.units ++ us) ∧
        (j = k ∨ (t.familyKey (m.units ++ us)).isSome = true)) ∨
      m.scales.length ≤ j ∧ mid ≤ f.toNat ∧ f.toNat < high := by
  by_cases hj : j < m.scales.length
  · rw [List.getElem?_append_left hj] at ht
    exact .inl ⟨j, t, ht, hf, rfl, .inl rfl⟩
  · rw [getElem?_append_right (Nat.le_of_not_lt hj)] at ht
    rcases h.joinedScales.cases t (mem_of_getElem? ht) f hf with
      ⟨u, hu, huf, key, hkey, hu'⟩ | hnew
    · obtain ⟨k, hk⟩ := mem_iff_getElem?.mp hu
      refine .inl ⟨k, u, hk, huf, hkey.trans hu'.symm, .inr ?_⟩
      rw [hkey]
      rfl
    · exact .inr ⟨Nat.le_of_not_lt hj, hnew⟩

/-- **Groups are not put together.** -/
theorem Separated.grows (hsettled : m.Settled) (hanchored : m.Anchored) (hm : m.Separated) :
    c.Separated := by
  have hle := h.le
  have hkeys (s : ScaleEntry) : s.familyKey c.units = s.familyKey (m.units ++ us) := by
    unfold ScaleEntry.familyKey
    rw [unitFamily?_of_unlinked_eq h.units]
  -- earlier scales of one family are of one group over the new units as well
  have hearly {k l : Nat} {u v : ScaleEntry} {f : FamilyId} (hkl : k ≠ l)
      (hu : m.scales[k]? = some u) (hv : m.scales[l]? = some v) (huf : u.family = some f)
      (hvf : v.family = some f) : (u.familyKey (m.units ++ us)).isSome = true ∧
        u.familyKey (m.units ++ us) = v.familyKey (m.units ++ us) := by
    have hvalid {w : ScaleEntry} (hw : w ∈ m.scales) (hwf : w.family = some f) :
        w.valid = true := by
      rw [← hsettled.scales w hw, hwf]
      rfl
    have hu' := mem_of_getElem? hu
    have hv' := mem_of_getElem? hv
    rw [hanchored.familyKey_append hu' (hvalid hu' huf),
      hanchored.familyKey_append hv' (hvalid hv' hvf)]
    exact sameGroup_iff.mp (hm k l u v f hkl hu hv huf hvf)
  intro i j s t f hij hs ht hsf htf
  obtain ⟨s', hs', hss'⟩ := exists_getElem?_of_map_eq h.scales hs
  obtain ⟨t', ht', htt'⟩ := exists_getElem?_of_map_eq h.scales ht
  rw [← (ScaleEntry.eq_of_unlinked_eq hss').1] at hsf
  rw [← (ScaleEntry.eq_of_unlinked_eq htt').1] at htf
  rw [sameGroup_iff, hkeys, hkeys, ← familyKey_of_unlinked_eq hss', ← familyKey_of_unlinked_eq htt']
  rcases h.stands_for_cases hs' hsf with ⟨k, u, hu, huf, hsu, hik⟩ | ⟨hi, hmid, hhigh⟩
  · rcases h.stands_for_cases ht' htf with ⟨l, v, hv, hvf, htv, hjl⟩ | ⟨-, hmid, hhigh⟩
    · by_cases hkl : k = l
      · subst hkl
        obtain rfl : u = v := Option.some.inj (hu.symm.trans hv)
        have heq := hsu.trans htv.symm
        rcases hik with rfl | hsome
        · rcases hjl with rfl | hsome
          · exact absurd rfl hij
          · exact ⟨heq ▸ hsome, heq⟩
        · exact ⟨hsome, heq⟩
      · obtain ⟨hsome, huv⟩ := hearly hkl hu hv huf hvf
        rw [hsu, htv]
        exact ⟨hsome, huv⟩
    · have := h.lt_of_scale (mem_of_getElem? hu) huf
      omega
  · rcases h.stands_for_cases ht' htf with ⟨l, v, hv, hvf, -, -⟩ | ⟨hj, -, -⟩
    · have := h.lt_of_scale (mem_of_getElem? hv) hvf
      omega
    · rw [getElem?_append_right hi] at hs'
      rw [getElem?_append_right hj] at ht'
      exact h.joinedScales.same_of_ne (by omega) hs' ht' hsf htf hmid hhigh

end Grows

/-! ### After any number of texts -/

section Reached

variable {m : Model}

theorem Reached.gathered (h : m.Reached) : m.Anchored ∧ m.Gathered := by
  induction h with
  | empty => exact ⟨by simp [Anchored], by simp [Gathered]⟩
  | extend hm hc ih => exact ⟨ih.1.extend hm.settled hc, ih.2.extend hm.settled ih.1 hc⟩

theorem Reached.separated (h : m.Reached) : m.Separated := by
  induction h with
  | empty => simp [Separated]
  | extend hm hc ih =>
    obtain ⟨us, ss, low, mid, high, hgrows⟩ := hm.settled.exists_grows hc
    exact ih.grows hgrows hm.settled hm.gathered.1

/-- **Two scales are in one family exactly if they are of one group**, after any number of texts. In
particular a scale without a point of reference is alone. -/
theorem Reached.scaleFamily_iff_sameGroup (h : m.Reached) {i j : Nat} {s t : ScaleEntry}
    (hij : i ≠ j) (hs : m.scales[i]? = some s) (ht : m.scales[j]? = some t)
    (hsvalid : s.valid = true) (htvalid : t.valid = true) :
    (s.family = t.family ↔ SameGroup m.units s t) ∧ (s.refPoint = none → s.family ≠ t.family) := by
  have hsmem := mem_of_getElem? hs
  have htmem := mem_of_getElem? ht
  obtain ⟨f, hf⟩ := Option.isSome_iff_exists.mp ((h.settled.scales s hsmem).trans hsvalid)
  have hgroup (heq : s.family = t.family) : SameGroup m.units s t :=
    h.separated i j s t f hij hs ht hf (heq.symm.trans hf)
  refine ⟨⟨hgroup, h.gathered.2 s hsmem t htmem hsvalid htvalid⟩, fun hnone heq => ?_⟩
  obtain ⟨point, _, ⟨hpoint, -⟩, -⟩ := hgroup heq
  rw [hnone] at hpoint
  cases hpoint

end Reached

/-- Depths below the level of the sea, and levels without a point of reference. -/
def depthsAndLevels : String := "scale Depth Sea = 1 from Foot; scale Level = 0 from Meter;"

/-- Depths in feet join heights in meters, which an earlier text declares, and levels are alone. -/
theorem Reached.scaleFamily_iff_sameGroup_depthsAndLevels :
    ∃ m : Model, m.Reached ∧ m.scales.map (·.family) = [some 1, some 1, some 2] ∧
      ∃ height depth level, m.scales = [height, depth, level] ∧
        (height.valid = true ∧ depth.valid = true ∧ level.valid = true) ∧
        SameGroup m.units height depth ∧ level.refPoint = none ∧ level.family ≠ depth.family := by
  obtain ⟨c, hc, d, hd, hscales⟩ :
      ∃ c, compile lengths { kind := .decimal } = .ok c ∧
        ∃ d, c.model.extend depthsAndLevels { kind := .decimal } = .ok d ∧
          d.model.scales.map (fun s => (s.family, s.valid, s.refPoint)) =
            [(some 1, true, some "Sea"), (some 1, true, some "Sea"), (some 2, true, none)] := by
    decide +kernel
  have hreached := Reached.extend (.extend .empty hc) hd
  have hfamilies := congrArg (List.map Prod.fst) hscales
  rw [map_map] at hfamilies
  obtain ⟨height, _, hlist, hheight, hscales⟩ := map_eq_cons_iff.mp hscales
  obtain ⟨depth, _, rfl, hdepth, hscales⟩ := map_eq_cons_iff.mp hscales
  obtain ⟨level, _, rfl, hlevel, hscales⟩ := map_eq_cons_iff.mp hscales
  obtain rfl := map_eq_nil_iff.mp hscales
  simp only [Prod.mk.injEq] at hheight hdepth hlevel
  have hplace (i : Nat) := congrArg (fun scales => scales[i]?) hlist
  obtain ⟨hjoined, -⟩ := Reached.scaleFamily_iff_sameGroup hreached (by decide) (hplace 0)
    (hplace 1) hheight.2.1 hdepth.2.1
  obtain ⟨-, hapart⟩ := Reached.scaleFamily_iff_sameGroup hreached (by decide) (hplace 2) (hplace 1)
    hlevel.2.1 hdepth.2.1
  exact ⟨_, hreached, hfamilies, height, depth, level, hlist,
    ⟨hheight.2.1, hdepth.2.1, hlevel.2.1⟩, hjoined.mp (hheight.1.trans hdepth.1.symm), hlevel.2.2,
    hapart hlevel.2.2⟩

end Quantity.Model
