import Quantity.Proofs.Loader.Complete

/-!
# Stored modules in another catalog

A stored module has the families of the catalog that it was built for. Another catalog takes it if
each of its entries passes the tests for stale modules. These tests keep the dimensions of families
apart, and units from scales. But two scales that begin a family together are not compared with each
other, and where the unit of one of them is a unit of the catalog, it may be in another family by
now. `coherent_append_compiled` says that nothing else can go wrong.
-/

namespace Quantity

open Model Elaborate List

namespace Catalog

/-! ### What the tests keep -/

/-- **A catalog accepts a stored module**: its name is free, its units are its own and have distinct
names, and none of its entries is stale. -/
structure Accepts (c : Catalog) (a : Artifact) : Prop where
  free : a.module ∉ c.modules
  own : ∀ u ∈ a.units, u.module = a.module
  names : (a.units.map fun u => (u.module, u.name)).Nodup
  units : ∀ u ∈ a.units, c.staleUnit? a u = none
  scales : ∀ s ∈ a.scales, c.staleScale? a s = none

/-- Scales of one family share a point of reference and the family of their units. -/
def SharesKey (units : List UnitDescriptor) (s t : ScaleDescriptor) : Prop :=
  ∃ key, scaleKey units s = some key ∧ scaleKey units t = some key

theorem SharesKey.symm {units : List UnitDescriptor} (h : SharesKey units s t) :
    SharesKey units t s := by
  obtain ⟨key, hs, ht⟩ := h
  exact ⟨key, ht, hs⟩

theorem SharesKey.trans {units : List UnitDescriptor} (h : SharesKey units s t)
    (h' : SharesKey units t x) : SharesKey units s x := by
  obtain ⟨key, hs, ht⟩ := h
  obtain ⟨key', ht', hx⟩ := h'
  rw [ht] at ht'
  cases ht'
  exact ⟨key, hs, hx⟩

theorem scaleKey_eq_some_iff {units : List UnitDescriptor} : scaleKey units s = some (point, f) ↔
      s.refPoint = some point ∧ unitFamilyIn units s = some f := by
  unfold scaleKey
  cases s.refPoint with
  | none => simp
  | some point' => simp [and_comm]

theorem sharesKey_iff {units : List UnitDescriptor} :
    SharesKey units s t ↔ ∃ point f, (s.refPoint = some point ∧ unitFamilyIn units s = some f) ∧
      t.refPoint = some point ∧ unitFamilyIn units t = some f := by
  simp only [SharesKey, Prod.exists, scaleKey_eq_some_iff]

namespace Accepts

variable {c : Catalog} {a : Artifact} (h : c.Accepts a) (hr : c.Registered)
include h hr

theorem familyOfUnit?_eq (s : ScaleDescriptor) :
    c.familyOfUnit? a s.unit s.unitModule = unitFamilyIn (c.units ++ a.units) s :=
  Catalog.familyOfUnit?_eq (eq_of_owns hr.names s) (eq_of_owns h.names s)

/-- The units of the module do not get in the way of scales that are there. -/
theorem scaleKey_append (hkey : scaleKey c.units s = some key) :
    scaleKey (c.units ++ a.units) s = some key := by
  obtain ⟨point, f⟩ := key
  obtain ⟨hpoint, hf⟩ := scaleKey_eq_some_iff.mp hkey
  obtain ⟨u, hu, rfl⟩ := Option.map_eq_some_iff.mp hf
  refine scaleKey_eq_some_iff.mpr ⟨hpoint, ?_⟩
  rw [unitFamilyIn, find?_owns_append hr.units h.free h.own hu, Option.map_some]

theorem exists_unitFamilyIn (hs : s ∈ a.scales) :
    ∃ f, unitFamilyIn (c.units ++ a.units) s = some f := by
  have hstale := h.scales s hs
  rw [← h.familyOfUnit?_eq hr]
  cases hf : c.familyOfUnit? a s.unit s.unitModule with
  | none =>
    rw [staleScale?, hf] at hstale
    cases hstale
  | some f => exact ⟨f, rfl⟩

theorem scale_known (hs : s ∈ a.scales) (hknown : c.isNewFamily s.family = false) :
    (∃ t ∈ c.scales, t.family = s.family) ∧
      (∀ t ∈ c.scales, t.family = s.family → SharesKey (c.units ++ a.units) t s) ∧
      ∀ u ∈ c.units, u.family ≠ s.family := by
  obtain ⟨f, hf⟩ := h.exists_unitFamilyIn hr hs
  have hunit := (h.familyOfUnit?_eq hr s).trans hf
  obtain ⟨hmember, hshares, hunits⟩ := (staleScale?_known hunit hknown).mp (h.scales s hs)
  refine ⟨hmember, fun t ht hfamily => ?_, hunits⟩
  obtain ⟨point, htpoint, hspoint, htf⟩ := sharesReference_iff.mp (hshares t ht hfamily)
  rw [h.familyOfUnit?_eq hr] at htf
  exact sharesKey_iff.mpr ⟨point, f, ⟨htpoint, htf⟩, hspoint, hf⟩

omit hr in
theorem dimension_append (hc : c.Coherent)
    (ha : ∀ u ∈ a.units, ∀ v ∈ a.units, u.family = v.family → u.dimension = v.dimension) :
    ∀ u ∈ c.units ++ a.units, ∀ v ∈ c.units ++ a.units, u.family = v.family →
      u.dimension = v.dimension := by
  -- a unit of the catalog makes a family known, and then the tests ask for its dimension
  have hmixed {u v : UnitDescriptor} (hu : u ∈ c.units) (hv : v ∈ a.units)
      (hfamily : u.family = v.family) : u.dimension = v.dimension := by
    have hknown : c.isNewFamily v.family = false := by
      rw [← hfamily]
      exact isNewFamily_of_mem (mem_append_left _ (mem_map_of_mem hu))
    exact ((staleUnit?_known hknown).mp (h.units v hv)).2.1 u hu hfamily
  intro u hu v hv hfamily
  rcases mem_append.mp hu with hu | hu <;> rcases mem_append.mp hv with hv | hv
  · exact hc.dimension u hu v hv hfamily
  · exact hmixed hu hv hfamily
  · exact (hmixed hv hu hfamily.symm).symm
  · exact ha u hu v hv hfamily

theorem apart_append (hc : c.Coherent) (ha : ∀ u ∈ a.units, ∀ s ∈ a.scales, u.family ≠ s.family) :
    ∀ u ∈ c.units ++ a.units, ∀ s ∈ c.scales ++ a.scales, u.family ≠ s.family := by
  intro u hu s hs hfamily
  rcases mem_append.mp hu with hu | hu <;> rcases mem_append.mp hs with hs | hs
  · exact hc.apart u hu s hs hfamily
  · have hknown : c.isNewFamily s.family = false := by
      rw [← hfamily]
      exact isNewFamily_of_mem (mem_append_left _ (mem_map_of_mem hu))
    exact (h.scale_known hr hs hknown).2.2 u hu hfamily
  · have hknown : c.isNewFamily u.family = false := by
      rw [hfamily]
      exact isNewFamily_of_mem (mem_append_right _ (mem_map_of_mem hs))
    exact ((staleUnit?_known hknown).mp (h.units u hu)).2.2 s hs hfamily.symm
  · exact ha u hu s hs hfamily

/-- **Scales stay apart exactly if those do that begin a family together.** -/
theorem reference_append_iff (hc : c.Coherent) :
    (c.scales ++ a.scales).Pairwise
        (fun s t => s.family = t.family → SharesKey (c.units ++ a.units) s t) ↔
      a.scales.Pairwise fun s t => c.isNewFamily s.family = true → s.family = t.family →
        SharesKey (c.units ++ a.units) s t := by
  rw [pairwise_append]
  constructor
  · rintro ⟨-, hpairs, -⟩
    exact hpairs.imp fun hst _ hfamily => hst hfamily
  · intro hpairs
    refine ⟨?_, ?_, ?_⟩
    · refine hc.reference.imp fun hst hfamily => ?_
      obtain ⟨key, hs, ht⟩ := hst hfamily
      exact ⟨key, h.scaleKey_append hr hs, h.scaleKey_append hr ht⟩
    · refine hpairs.imp_of_mem fun {s t} hs ht hst hfamily => ?_
      cases hnew : c.isNewFamily s.family with
      | true => exact hst hnew hfamily
      | false =>
        -- a scale of the catalog is between the two
        obtain ⟨⟨x, hx, hxfamily⟩, hshares, -⟩ := h.scale_known hr hs hnew
        obtain ⟨-, hshares', -⟩ := h.scale_known hr ht (hfamily ▸ hnew)
        exact (hshares x hx hxfamily).symm.trans (hshares' x hx (hxfamily.trans hfamily))
    · intro s hs t ht hfamily
      have hknown : c.isNewFamily t.family = false := by
        rw [← hfamily]
        exact isNewFamily_of_mem (mem_append_right _ (mem_map_of_mem hs))
      exact (h.scale_known hr ht hknown).2.1 s hs hfamily

end Accepts

/-! ### Where the module was built -/

namespace FamiliesFit

variable {c : Catalog} {us : List UnitDescriptor} {ss : List ScaleDescriptor}
  (h : c.FamiliesFit us ss)
include h

/-- A unit is in a family of its dimension, or its family is new. -/
theorem unit_cases (hu : u ∈ us) :
    (∃ v ∈ c.units, v.family = u.family ∧ v.dimension = u.dimension) ∨
      (c.unitKey u).bind c.unitNumber = none ∧ u.family ∉ c.families := by
  cases hnumber : (c.unitKey u).bind c.unitNumber with
  | none => exact .inr ⟨rfl, h.units.new _ (mem_map_of_mem hu) hnumber⟩
  | some f =>
    have hfamily : u.family = f := h.units.known _ (mem_map_of_mem hu) f hnumber
    obtain ⟨v, hv, hvfamily, hdimension⟩ := exists_unit_of_unitNumber hnumber
    exact .inl ⟨v, hv, hvfamily.trans hfamily.symm, hdimension⟩

theorem scale_cases (hs : s ∈ ss) :
    (∃ t ∈ c.scales, t.family = s.family ∧
        ∃ key, scaleKey c.units t = some key ∧ scaleKey (c.units ++ us) s = some key) ∨
      (scaleKey (c.units ++ us) s).bind c.scaleNumber = none ∧ s.family ∉ c.families ∧
        ∀ u ∈ us, u.family ≠ s.family := by
  cases hnumber : (scaleKey (c.units ++ us) s).bind c.scaleNumber with
  | none =>
    have hnew := h.scales.new _ (mem_map_of_mem hs) hnumber
    rw [mem_append, not_or] at hnew
    exact .inr ⟨rfl, hnew.1, fun u hu heq => hnew.2 (mem_map.mpr ⟨u, hu, heq⟩)⟩
  | some f =>
    have hfamily : s.family = f := h.scales.known _ (mem_map_of_mem hs) f hnumber
    obtain ⟨t, ht, htfamily, htkey, hsome⟩ := exists_scale_of_scaleNumber hnumber
    obtain ⟨key, hkey⟩ := Option.isSome_iff_exists.mp hsome
    exact .inl ⟨t, ht, htfamily.trans hfamily.symm, key, htkey.trans hkey, hkey⟩

theorem dimension_eq (hc : c.Coherent) :
    ∀ u ∈ us, ∀ v ∈ us, u.family = v.family → u.dimension = v.dimension := by
  have hpairs : us.Pairwise fun u v => u.family = v.family → u.dimension = v.dimension := by
    refine (pairwise_map.mp h.units.same).imp_of_mem fun {u v} hu hv hsame heq => ?_
    rcases h.unit_cases hu with ⟨x, hx, hxfamily, hxdim⟩ | ⟨hunone, hunew⟩
    · rcases h.unit_cases hv with ⟨y, hy, hyfamily, hydim⟩ | ⟨-, hvnew⟩
      · rw [← hxdim, ← hydim]
        exact hc.dimension x hx y hy (by rw [hxfamily, hyfamily, heq])
      · refine absurd (mem_append_left _ ?_) hvnew
        exact mem_map.mpr ⟨x, hx, hxfamily.trans heq⟩
    · rcases h.unit_cases hv with ⟨y, hy, hyfamily, -⟩ | ⟨hvnone, -⟩
      · refine absurd (mem_append_left _ ?_) hunew
        exact mem_map.mpr ⟨y, hy, hyfamily.trans heq.symm⟩
      · -- new families have members with one key, the dimension
        obtain ⟨hsome, hkey⟩ := (hsame hunone hvnone).mp heq
        obtain ⟨dimension, hu'⟩ := Option.isSome_iff_exists.mp hsome
        rw [dimension_of_unitKey hu', dimension_of_unitKey (hkey ▸ hu')]
  intro u hu v hv
  have : Std.Symm fun u v : UnitDescriptor => u.family = v.family → u.dimension = v.dimension :=
    ⟨fun _ _ huv heq => (huv heq.symm).symm⟩
  exact hpairs.forall_of_forall (fun _ _ _ => rfl) hu hv

theorem family_ne (hc : c.Coherent) : ∀ u ∈ us, ∀ s ∈ ss, u.family ≠ s.family := by
  intro u hu s hs heq
  rcases h.scale_cases hs with ⟨t, ht, htfamily, -⟩ | ⟨-, -, hne⟩
  · rcases h.unit_cases hu with ⟨v, hv, hvfamily, -⟩ | ⟨-, hnew⟩
    · exact hc.apart v hv t ht (by rw [hvfamily, heq, htfamily])
    · refine hnew (mem_append_right _ ?_)
      exact mem_map.mpr ⟨t, ht, htfamily.trans heq.symm⟩
  · exact hne u hu heq

theorem reference (hc : c.Coherent) :
    ss.Pairwise fun s t => s.family = t.family → SharesKey (c.units ++ us) s t := by
  refine (pairwise_map.mp h.scales.same).imp_of_mem fun {s t} hs ht hsame heq => ?_
  rcases h.scale_cases hs with ⟨x, hx, hxfamily, key, hxkey, hskey⟩ | ⟨hsnone, hsnew, -⟩
  · rcases h.scale_cases ht with ⟨y, hy, hyfamily, key', hykey, htkey⟩ | ⟨-, htnew, -⟩
    · have hxkey' := hc.scaleKey_eq hx hy (by rw [hxfamily, hyfamily, heq]) hykey
      rw [hxkey] at hxkey'
      cases hxkey'
      exact ⟨key, hskey, htkey⟩
    · refine absurd (mem_append_right _ ?_) htnew
      exact mem_map.mpr ⟨x, hx, hxfamily.trans heq⟩
  · rcases h.scale_cases ht with ⟨y, hy, hyfamily, -⟩ | ⟨htnone, -⟩
    · refine absurd (mem_append_right _ ?_) hsnew
      exact mem_map.mpr ⟨y, hy, hyfamily.trans heq.symm⟩
    · obtain ⟨hsome, hkey⟩ := (hsame hsnone htnone).mp heq
      obtain ⟨key, hskey⟩ := Option.isSome_iff_exists.mp hsome
      exact ⟨key, hskey, Eq.trans hkey.symm hskey⟩

end FamiliesFit

end Catalog

/-! ### From one catalog to another -/

/-- The families and names of a module that was built by a load that succeeded. -/
theorem familiesFit_of_ok {l : Loader} (hl : l.builder = .ofDescriptors)
    (hok : (l.compileAndPublish cancellation isFile host module source text).result = .ok r)
    (hasked : (l.compileAndPublish cancellation isFile host module source text).request = some
      request) (hbuild : l.builder.build request = .ok a) :
    host.catalog.FamiliesFit a.units a.scales ∧ (∀ u ∈ a.units, u.module = a.module) ∧
      (a.units.map fun u => (u.module, u.name)).Nodup := by
  obtain ⟨late, scales, src, h, rfl, -⟩ := exists_compiles_of_ok hl hok hasked hbuild
  refine ⟨Catalog.familiesFit_late h.lateEntries module h.room, fun u hu => ?_,
    Catalog.nodup_lateUnits h.nodup_addedUnits⟩
  obtain ⟨p, -, rfl⟩ := mem_map.mp hu
  rfl

open Catalog in
/-- **What a stored module may break in another catalog.** Let a module `a` be built for one coherent
catalog, and let another one, `c`, find that it is not stale. With the entries of `a`, the units of
a family still have one dimension, and no family has both units and scales. The families are
coherent exactly if scales of `a` that begin a family together have units of one family in `c`, and
this is so if their units are in the families in which they were when `a` was built. -/
theorem coherent_append_compiled {l : Loader} (hl : l.builder = .ofDescriptors) {host : Host}
    (hhost : host.catalog.Coherent) {module : String} {cancellation : Cancellation} {isFile : Bool}
    {source text : String} {r : LoadReport} {request : BuildRequest} {a : Artifact}
    (hok : (l.compileAndPublish cancellation isFile host module source text).result = .ok r)
    (hasked : (l.compileAndPublish cancellation isFile host module source text).request =
      some request)
    (hbuild : l.builder.build request = .ok a) {c : Catalog} (hc : c.Coherent)
    (hr : c.Registered) (hfree : module ∉ c.modules) {references : List String}
    (hstale : c.staleReason? references module a = none) :
    (∀ u ∈ c.units ++ a.units, ∀ v ∈ c.units ++ a.units, u.family = v.family →
        u.dimension = v.dimension) ∧
      (∀ u ∈ c.units ++ a.units, ∀ s ∈ c.scales ++ a.scales, u.family ≠ s.family) ∧
      ((c.append ⟨a.module, a.units, a.scales⟩).Coherent ↔
        a.scales.Pairwise fun s t => c.isNewFamily s.family = true → s.family = t.family →
          unitFamilyIn (c.units ++ a.units) s = unitFamilyIn (c.units ++ a.units) t) ∧
      ((∀ s ∈ a.scales, unitFamilyIn (c.units ++ a.units) s =
          unitFamilyIn (host.catalog.units ++ a.units) s) →
        (c.append ⟨a.module, a.units, a.scales⟩).Coherent) := by
  obtain ⟨hfit, hown, hnames⟩ := familiesFit_of_ok hl hok hasked hbuild
  obtain ⟨rfl, -, hunits, hscales⟩ := staleReason?_eq_none_iff.mp hstale
  have haccepts : c.Accepts a := ⟨hfree, hown, hnames, hunits, hscales⟩
  have hdimension := haccepts.dimension_append hc (hfit.dimension_eq hhost)
  have hapart := haccepts.apart_append hr hc (hfit.family_ne hhost)
  have hcoherent : (c.append ⟨a.module, a.units, a.scales⟩).Coherent ↔
      a.scales.Pairwise fun s t => c.isNewFamily s.family = true → s.family = t.family →
        unitFamilyIn (c.units ++ a.units) s = unitFamilyIn (c.units ++ a.units) t := by
    have hreference := haccepts.reference_append_iff hr hc
    constructor
    · intro hcoherent
      refine (hreference.mp hcoherent.reference).imp fun hst hnew hfamily => ?_
      obtain ⟨point, f, ⟨-, hsf⟩, -, htf⟩ := sharesKey_iff.mp (hst hnew hfamily)
      rw [hsf, htf]
    · intro hpairs
      refine ⟨hdimension, hapart, hreference.mpr ?_⟩
      -- the points of reference are shared since the module was built
      refine (hpairs.and (hfit.reference hhost)).imp_of_mem fun {s t} hs _ hst hnew hfamily => ?_
      obtain ⟨point, -, ⟨hspoint, -⟩, htpoint, -⟩ := sharesKey_iff.mp (hst.2 hfamily)
      obtain ⟨f, hf⟩ := haccepts.exists_unitFamilyIn hr hs
      exact sharesKey_iff.mpr ⟨point, f, ⟨hspoint, hf⟩, htpoint, hst.1 hnew hfamily ▸ hf⟩
  refine ⟨hdimension, hapart, hcoherent, fun hkept => hcoherent.mpr ?_⟩
  refine (hfit.reference hhost).imp_of_mem fun {s t} hs ht hst _ hfamily => ?_
  obtain ⟨_, f, ⟨-, hsf⟩, -, htf⟩ := sharesKey_iff.mp (hst hfamily)
  rw [hkept s hs, hkept t ht, hsf, htf]

def metersAndGrams : Host where
  catalog :=
    { units :=
        [decimalUnit "si" "Meter" "m" { length := 1 } 0, decimalUnit "si" "Gram" "g" { mass := 1 } 1]
      modules := ["si"] }

/-- Heights in meters and depths in feet, both from the level of the sea. -/
def heightsAndDepths : String :=
  "unit<decimal> Foot \"ft\" = 0.3 * Meter;
   scale Height SeaLevel = 0 from Meter;
   scale Depth SeaLevel = 0 from Foot;"

/-- Yards, and meters that do not belong to their family. -/
def yardsAndMeters : Catalog where
  units :=
    [decimalUnit "aux" "Yard" "yd" { length := 1 } 0, decimalUnit "si" "Meter" "m" { length := 1 } 1]
  modules := ["aux", "si"]

/-- Heights and depths are built as one family. Where feet are with yards and meters are not, they
are not stale, and their family is not coherent. -/
theorem coherent_append_compiled_yardsAndMeters :
    metersAndGrams.catalog.Coherent ∧ yardsAndMeters.Coherent ∧ yardsAndMeters.Registered ∧ ∃ r a,
      (Loader.compileAndPublish {} .never true metersAndGrams "late_sea" "" heightsAndDepths).result =
        .ok r ∧
      (Loader.compileAndPublish {} .never true metersAndGrams "late_sea" "" heightsAndDepths).request =
        some a ∧
      yardsAndMeters.staleReason? [] "late_sea" a = none ∧
      ¬ (yardsAndMeters.append ⟨a.module, a.units, a.scales⟩).Coherent := by
  have hhost : metersAndGrams.catalog.Coherent := ⟨by decide, by decide, List.Pairwise.nil⟩
  have hc : yardsAndMeters.Coherent := ⟨by decide, by decide, List.Pairwise.nil⟩
  have hr : yardsAndMeters.Registered := ⟨by decide, by decide, by decide⟩
  obtain ⟨r, hresult, a, ha, hown, hstale, hscales⟩ :
      ∃ r, (Loader.compileAndPublish {} .never true metersAndGrams "late_sea" ""
        heightsAndDepths).result = .ok r ∧
      ∃ a ∈ (Loader.compileAndPublish {} .never true metersAndGrams "late_sea" ""
        heightsAndDepths).request,
        a.foreignEntries.hasErrors = false ∧
        yardsAndMeters.staleReason? [] "late_sea" a = none ∧
        ¬ a.scales.Pairwise fun s t => yardsAndMeters.isNewFamily s.family = true →
          s.family = t.family → Catalog.unitFamilyIn (yardsAndMeters.units ++ a.units) s =
            Catalog.unitFamilyIn (yardsAndMeters.units ++ a.units) t := by
    decide +kernel
  have hbuild : Builder.ofDescriptors.build a = .ok a :=
    Artifact.ifOwn_of_isOwn (a.hasErrors_foreignEntries.mp hown) a
  obtain ⟨-, -, hcoherent, -⟩ := coherent_append_compiled rfl hhost hresult ha hbuild hc hr
    (by decide) hstale
  exact ⟨hhost, hc, hr, r, a, hresult, ha, hstale, fun h => hscales (hcoherent.mp h)⟩

end Quantity
