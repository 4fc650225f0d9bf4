import Mathlib.Data.List.Nodup
import Quantity.Proofs.Catalog.Late
import Quantity.Proofs.Catalog.Stale

/-!
# Coherent catalogs

The families of a catalog are coherent if their members have in common what makes a family. In such
a catalog, late entries pass all the tests that a stored module has to pass (`staleUnit?_late`,
`staleScale?_late`): what is tested are the families that the entries got.
-/

namespace Quantity

open Model List

theorem find?_reverse_of_unique {xs : List α}
    (h : ∀ x ∈ xs, ∀ y ∈ xs, p x = true → p y = true → x = y) :
    xs.reverse.find? p = xs.find? p := by
  cases hfirst : xs.find? p with
  | none =>
    refine List.find?_eq_none.mpr fun x hx => ?_
    exact List.find?_eq_none.mp hfirst x (mem_reverse.mp hx)
  | some x =>
    have hx := mem_of_find?_eq_some hfirst
    have hpx := find?_some hfirst
    exact find?_eq_some_of_unique (mem_reverse.mpr hx) hpx fun y hy hpy =>
      h y (mem_reverse.mp hy) x hx hpy hpx

namespace Catalog

/-- **The families of a catalog are coherent**: units of a family have one dimension, no family has
both units and scales, and scales of a family share a point of reference and the family of their
units, unless a scale is alone. -/
structure Coherent (c : Catalog) : Prop where
  dimension : ∀ u ∈ c.units, ∀ v ∈ c.units, u.family = v.family → u.dimension = v.dimension
  apart : ∀ u ∈ c.units, ∀ s ∈ c.scales, u.family ≠ s.family
  reference : c.scales.Pairwise fun s t => s.family = t.family →
    ∃ key, scaleKey c.units s = some key ∧ scaleKey c.units t = some key

/-- All entries belong to registered modules, in which the names of units are distinct. -/
structure Registered (c : Catalog) : Prop where
  names : (c.units.map fun u => (u.module, u.name)).Nodup
  units : ∀ u ∈ c.units, u.module ∈ c.modules
  scales : ∀ s ∈ c.scales, s.module ∈ c.modules

section Families

variable {c : Catalog}

/-- The scales of a family share their keys with any of them that has one. -/
theorem Coherent.scaleKey_eq (h : c.Coherent) (hs : s ∈ c.scales) (ht : t ∈ c.scales)
    (hfamily : s.family = t.family) (hkey : scaleKey c.units t = some key) :
    scaleKey c.units s = some key := by
  by_cases heq : s = t
  · rw [heq]
    exact hkey
  · have : Std.Symm fun s t : ScaleDescriptor => s.family = t.family →
        ∃ key, scaleKey c.units s = some key ∧ scaleKey c.units t = some key := by
      refine ⟨fun x y hxy hfamily => ?_⟩
      obtain ⟨key, hx, hy⟩ := hxy hfamily.symm
      exact ⟨key, hy, hx⟩
    obtain ⟨key', hs', ht'⟩ := h.reference.forall hs ht heq hfamily
    rw [hs', ← ht', hkey]

theorem isNewFamily_of_mem (h : f ∈ c.families) : c.isNewFamily f = false := by
  unfold isNewFamily maxFamily?
  cases hmax : (c.units.map (·.family) ++ c.scales.map (·.family)).max? with
  | none =>
    have hnil : c.families = [] := max?_eq_none_iff.mp hmax
    rw [hnil] at h
    cases h
  | some largest =>
    have hle : f ≤ largest := (max?_le_iff hmax).mp (Nat.le_refl _) f h
    simpa using hle

/-- As long as there is room, the numbers from the next one on are new. -/
theorem isNewFamily_of_le {count : Nat} (hroom : c.HasRoom count)
    (h : c.nextFamily.toNat ≤ f.toNat) : c.isNewFamily f = true := by
  unfold isNewFamily
  cases hmax : c.maxFamily? with
  | none => rfl
  | some largest =>
    have hmem : largest ∈ c.families := max?_mem hmax
    have hlt := hroom.nextFamily.2.1 largest hmem
    simp only [decide_eq_true_eq, UInt32.lt_iff_toNat_lt]
    omega

/-- In a catalog and an artifact with distinct names, the unit of a scale is found from either
end. -/
theorem familyOfUnit?_eq
    (hc : ∀ u ∈ c.units, ∀ v ∈ c.units, s.owns u = true → s.owns v = true → u = v)
    (ha : ∀ u ∈ a.units, ∀ v ∈ a.units, s.owns u = true → s.owns v = true → u = v) :
    c.familyOfUnit? a s.unit s.unitModule = unitFamilyIn (c.units ++ a.units) s := by
  have howns : (fun u : UnitDescriptor => u.name = s.unit && u.module = s.unitModule) = s.owns := by
    funext u
    exact Bool.and_comm _ _
  unfold familyOfUnit? unitFamilyIn
  rw [howns, reverse_append, find?_append, find?_append,
    find?_reverse_of_unique hc, find?_reverse_of_unique ha]

theorem eq_of_owns {units : List UnitDescriptor}
    (h : (units.map fun u => (u.module, u.name)).Nodup) (s : ScaleDescriptor) :
    ∀ u ∈ units, ∀ v ∈ units, s.owns u = true → s.owns v = true → u = v := by
  intro u hu v hv hsu hsv
  refine inj_on_of_nodup_map h hu hv ?_
  rw [ScaleDescriptor.owns_iff.mp hsu, ScaleDescriptor.owns_iff.mp hsv]

end Families

/-! ### Late entries -/

section Late

variable {c : Catalog} {us : List UnitEntry} {ss : List ScaleEntry} {module : String} {a : Artifact}

/-- A late unit is in a family of its dimension, or in a new one. -/
theorem staleUnit?_late (h : LateEntries c us ss) (hroom : c.HasRoom (c.opened us ss))
    (hc : c.Coherent) (ha : a.units = c.lateUnits module us) (hu : u ∈ a.units) :
    c.staleUnit? a u = none := by
  have hlate : u ∈ c.lateUnits module us := ha ▸ hu
  cases hnumber : (c.unitKey u).bind c.unitNumber with
  | some f =>
    -- the family of its dimension, which has a unit already
    have hfamily : u.family = f :=
      (familiesFit_late h module hroom).units.known _ (mem_map_of_mem hlate) f hnumber
    obtain ⟨v, hvmem, rfl, hdimension⟩ := exists_unit_of_unitNumber hnumber
    have hknown : c.isNewFamily u.family = false := by
      rw [hfamily]
      exact isNewFamily_of_mem (mem_append_left _ (mem_map_of_mem hvmem))
    refine (staleUnit?_known hknown).mpr ⟨⟨v, hvmem, hfamily.symm⟩, ?_, ?_⟩
    · intro w hw hwfamily
      rw [hc.dimension w hw v hvmem (hwfamily.trans hfamily), hdimension]
    · intro s hs hsfamily
      exact hc.apart v hvmem s hs (hsfamily.trans hfamily).symm
  | none =>
    have hnew := isNewFamily_of_le hroom (nextFamily_le_of_lateUnit h module hroom hlate hnumber)
    rw [staleUnit?_new hnew]
    by_cases hname : c.units.any (·.name = u.name) = true
    · exact .inl (any_eq_true.mpr ⟨u, mem_filter.mpr ⟨hu, by simp⟩, hname⟩)
    · -- a unit of the dimension would have given its family to the late one
      have hkey : c.unitKey u = some u.dimension := if_neg hname
      rw [hkey] at hnumber
      have hfind := List.find?_eq_none.mp (Option.map_eq_none_iff.mp hnumber)
      exact .inr fun v hv => by simpa using hfind v hv

/-- The unit of a scale of a catalog is in the catalog, and late units do not get in the way. -/
theorem unitFamilyIn_append (hrestored : ∃ m, c.restore = .ok m) (hr : c.Registered)
    (hfree : module ∉ c.modules) (ha : a.units = c.lateUnits module us) (hs : s ∈ c.scales) :
    unitFamilyIn (c.units ++ a.units) s = unitFamilyIn c.units s := by
  obtain ⟨v, hv, -⟩ := ((restore_ok_iff c).mp hrestored).2 s hs
  have hmodule : ∀ u ∈ a.units, u.module = module := by
    intro u hu
    rw [ha] at hu
    obtain ⟨p, -, rfl⟩ := mem_map.mp hu
    rfl
  unfold unitFamilyIn
  rw [find?_owns_append hr.units hfree hmodule hv, hv]

theorem nodup_lateUnits (hnames : (us.map (·.name)).Nodup) :
    ((c.lateUnits module us).map fun u => (u.module, u.name)).Nodup := by
  have hmap : (c.lateUnits module us).map (fun u => (u.module, u.name)) =
      (us.map (·.name)).map (module, ·) := by
    conv_rhs => rw [← map_fst_unitsNumbered c us]
    rw [lateUnits, map_map, map_map, map_map]
    rfl
  rw [hmap]
  exact hnames.map fun _ _ heq => (Prod.mk.inj heq).2

/-- A late scale is in the family of its point of reference and unit, or in a new one. -/
theorem staleScale?_late (h : LateEntries c us ss) (hroom : c.HasRoom (c.opened us ss))
    (hc : c.Coherent) (hr : c.Registered) (hrestored : ∃ m, c.restore = .ok m)
    (hfree : module ∉ c.modules) (hnames : (us.map (·.name)).Nodup)
    (ha : a.units = c.lateUnits module us) (hs : s ∈ c.lateScales module us ss) :
    c.staleScale? a s = none := by
  -- the unit of a scale is found alike by all who look for it
  have hfamilyOf (t : ScaleDescriptor) :
      c.familyOfUnit? a t.unit t.unitModule = unitFamilyIn (c.units ++ a.units) t :=
    familyOfUnit?_eq (eq_of_owns hr.names t) (eq_of_owns (ha ▸ nodup_lateUnits hnames) t)
  have hold {t : ScaleDescriptor} (ht : t ∈ c.scales) :
      c.familyOfUnit? a t.unit t.unitModule = unitFamilyIn c.units t :=
    (hfamilyOf t).trans (unitFamilyIn_append hrestored hr hfree ha ht)
  obtain ⟨f, hf⟩ : ∃ f, unitFamilyIn (c.units ++ a.units) s = some f := by
    obtain ⟨p, hp, hdescribe⟩ := mem_filterMap.mp hs
    obtain ⟨i, e, hi, he, hd⟩ := describe?_late h module hp
    have hmem : p.1 ∈ ss := map_fst_scalesNumbered c us ss ▸ mem_map_of_mem hp
    rw [hd] at hdescribe
    cases hdescribe
    rw [ha, unitFamilyIn_late h module hmem hi he]
    exact Option.isSome_iff_exists.mp (isSome_unitFamily? h hmem)
  have hunit := (hfamilyOf s).trans hf
  have hkey : scaleKey (c.units ++ c.lateUnits module us) s = s.refPoint.map (·, f) := by
    unfold scaleKey
    rw [← ha, hf]
    cases s.refPoint <;> rfl
  cases hnumber : (scaleKey (c.units ++ c.lateUnits module us) s).bind c.scaleNumber with
  | some g =>
    have hfamily : s.family = g :=
      (familiesFit_late h module hroom).scales.known _ (mem_map_of_mem hs) g hnumber
    obtain ⟨t, htmem, rfl, htkey, hsome⟩ := exists_scale_of_scaleNumber hnumber
    rw [hkey, Option.isSome_map] at hsome
    obtain ⟨point, hpoint⟩ := Option.isSome_iff_exists.mp hsome
    rw [hkey, hpoint] at htkey
    have hknown : c.isNewFamily s.family = false := by
      rw [hfamily]
      exact isNewFamily_of_mem (mem_append_right _ (mem_map_of_mem htmem))
    refine (staleScale?_known hunit hknown).mpr ⟨⟨t, htmem, hfamily.symm⟩, ?_, ?_⟩
    · intro x hx hxfamily
      have hxkey := hc.scaleKey_eq hx htmem (hxfamily.trans hfamily) htkey
      obtain ⟨point', hxpoint, hxunit⟩ := Option.bind_eq_some_iff.mp hxkey
      obtain ⟨f', hxunit, heq⟩ := Option.map_eq_some_iff.mp hxunit
      cases heq
      exact sharesReference_iff.mpr ⟨point, hxpoint, hpoint, (hold hx).trans hxunit⟩
    · intro u hu hufamily
      exact hc.apart u hu t htmem (hufamily.trans hfamily)
  | none =>
    have hnew := isNewFamily_of_le hroom (nextFamily_le_of_lateScale h module hroom hs hnumber)
    refine (staleScale?_new hunit hnew).mpr fun x hx => Bool.eq_false_iff.mpr fun hshares => ?_
    -- a scale with the point of reference would have given its family to the late one
    obtain ⟨point, hxpoint, hpoint, hxunit⟩ := sharesReference_iff.mp hshares
    have hxkey : scaleKey c.units x = some (point, f) := by
      unfold scaleKey
      rw [hxpoint, ← hold hx, hxunit]
      rfl
    rw [hkey, hpoint] at hnumber
    have hfind := List.find?_eq_none.mp (Option.map_eq_none_iff.mp hnumber)
    exact absurd hxkey (by simpa using hfind x hx)

end Late

end Catalog

end Quantity
