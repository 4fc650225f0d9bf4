import Quantity.Proofs.Catalog.FreshFamilies
import Quantity.Proofs.Loader.Restorable

/-!
# Modules as models again

A module keeps of a model what cannot be worked out again. The rest is worked out when the module is
restored and extended by nothing, and it comes out as it was: only the texts that stand for values
are other ones, since they refer to the module (`extend_restore_ofModel`).
-/

namespace Quantity

open Model Elaborate List

/-! ### Restored entries -/

/-- The unit as one of a module: its dimension and its factor are referred to by name. -/
def UnitEntry.recoded (module : String) (u : UnitEntry) : UnitEntry :=
  { u with
    origin := .restored module
    dimension := ⟨u.dimension.value, u.name ++ "::DIMENSION"⟩
    factor := ⟨u.factor.constant, u.factor.value, u.name ++ "::FACTOR"⟩ }

/-- The scale as one of a module: its offset is referred to by name. -/
def ScaleEntry.recoded (module : String) (s : ScaleEntry) : ScaleEntry :=
  { s with
    origin := .restored module
    offset := ⟨true, s.offset.value, s.name ++ "::OFFSET"⟩ }

/-- **The model of a module**: the same entries, with the same connections and operations, and none
of them late. -/
def Model.recoded (module : String) (m : Model) : Model :=
  { m with
    units := m.units.map (·.recoded module)
    scales := m.scales.map (·.recoded module)
    lateUnits := m.units.length
    lateScales := m.scales.length }

/-- The entries of a module before anything is worked out about them. -/
def Model.unlinked (module : String) (m : Model) : Model :=
  { units := m.units.map fun u => (u.recoded module).unlinked
    scales := m.scales.map fun s => (s.recoded module).unlinked }

/-- **A model stands alone and is complete**: every entry has a meaning and a family, was declared
by the model itself and is connected, and all units of a family can be related. -/
structure Model.Complete (m : Model) : Prop where
  units : ∀ u ∈ m.units, u.valid = true ∧ u.family.isSome = true ∧ u.origin.module? = none ∧
    u.redeclared = false
  scales : ∀ s ∈ m.scales, s.valid = true ∧ s.family.isSome = true ∧
    ∃ name i, s.unit = some i ∧ m.findUnit? name = some i
  linked : m.Linked
  related : relationErrors m.units = []

section Restored

variable {m : Model} (h : m.Complete) (module : String)
include h

theorem Model.Complete.restored_units :
    (m.units.filterMap (·.describe? module)).map (·.entry) =
      m.units.map fun u => (u.recoded module).unlinked := by
  rw [map_filterMap]
  refine (filterMap_congr fun u hu => ?_).trans (congrFun filterMap_eq_map _)
  obtain ⟨hvalid, hfamily, -, hredeclared⟩ := h.units u hu
  obtain ⟨f, hf⟩ := Option.isSome_iff_exists.mp hfamily
  simp [UnitEntry.describe?, UnitDescriptor.entry, UnitEntry.recoded, UnitEntry.unlinked, hvalid,
    hf, hredeclared]

theorem Model.Complete.restored_scales :
    (m.scales.filterMap (·.describe? m module)).map
        (·.entry (m.units.filterMap (·.describe? module))) =
      m.scales.map fun s => (s.recoded module).unlinked := by
  have hunits : m.units.filterMap (·.describe? module) =
      m.units.map fun u => u.descriptor module (u.family.getD 0) := by
    refine (filterMap_congr fun u hu => ?_).trans (congrFun filterMap_eq_map _)
    obtain ⟨hvalid, hfamily, -⟩ := h.units u hu
    obtain ⟨f, hf⟩ := Option.isSome_iff_exists.mp hfamily
    simp [UnitEntry.describe?, UnitEntry.descriptor, hvalid, hf]
  rw [hunits, map_filterMap]
  refine (filterMap_congr fun s hs => ?_).trans (congrFun filterMap_eq_map _)
  obtain ⟨hvalid, hfamily, name, i, hi, hfind⟩ := h.scales s hs
  obtain ⟨f, hf⟩ := Option.isSome_iff_exists.mp hfamily
  obtain ⟨u, hu, hname⟩ := mem_places.mp (mem_of_getLast? hfind)
  obtain ⟨-, -, horigin, -⟩ := h.units u (mem_of_getElem? hu)
  have hname : u.name = name := by simpa using hname
  -- all units are of the module, so the name is all that counts
  have hplaces (d : ScaleDescriptor) (hd : d.unit = name ∧ d.unitModule = module) :
      (places (m.units.map fun u => u.descriptor module (u.family.getD 0)) d.owns).getLast? =
        some i := by
    rw [places_map, ← hfind, findUnit?]
    simp [ScaleDescriptor.owns, UnitEntry.descriptor, hd.1, hd.2]
  simp [ScaleEntry.describe?, ScaleDescriptor.entry, ScaleEntry.recoded, ScaleEntry.unlinked, hvalid,
    hf, hi, hu, horigin, hname, hplaces]

end Restored

/-! ### Working out the rest -/

section Linked

variable {m : Model} (h : m.Complete) (module : String)
include h

theorem Model.Complete.linkUnit_unlinked (hu : m.units[i]? = some u) :
    linkUnit (m.units.map fun u => (u.recoded module).unlinked) (u.recoded module).unlinked i =
      { u.recoded module with operations := [] } := by
  obtain ⟨hvalid, hfamily, -⟩ := h.units u (mem_of_getElem? hu)
  obtain ⟨f, hf⟩ := Option.isSome_iff_exists.mp hfamily
  have hvalidFamily : validFamily u = some f := by rw [validFamily, if_pos hvalid, hf]
  have hcongr : linkUnit (m.units.map fun u => (u.recoded module).unlinked) = linkUnit m.units := by
    refine linkUnit_congr ?_
    rw [map_map]
    rfl
  have heq := linkUnit_of_some hvalidFamily m.units i
  rw [h.linked.linkUnit_eq hu] at heq
  rw [hcongr, linkUnit_of_some (by exact hvalidFamily)]
  conv_rhs => rw [heq]
  rfl

theorem Model.Complete.linkScale_unlinked (hs : m.scales[i]? = some s) :
    linkScale (m.scales.map fun s => (s.recoded module).unlinked) (s.recoded module).unlinked i =
      s.recoded module := by
  obtain ⟨hvalid, hfamily, -⟩ := h.scales s (mem_of_getElem? hs)
  obtain ⟨f, hf⟩ := Option.isSome_iff_exists.mp hfamily
  have hvalidFamily : validScaleFamily s = some f := by rw [validScaleFamily, if_pos hvalid, hf]
  have hcongr : linkScale (m.scales.map fun s => (s.recoded module).unlinked) =
      linkScale m.scales := by
    refine linkScale_congr ?_
    rw [map_map]
    rfl
  have heq := linkScale_of_some hvalidFamily m.scales i
  rw [h.linked.linkScale_eq hs] at heq
  rw [hcongr, linkScale_of_some (by exact hvalidFamily)]
  conv_rhs => rw [heq]
  rfl

/-- **Entries without connections are connected as they were.** -/
theorem Model.Complete.resolve_unlinked :
    ((m.unlinked module).beginLate.connected (m.unlinked module).units
        (m.unlinked module).scales).resolveOperations = m.recoded module := by
  have hunits : (m.unlinked module).units.mapIdx
        (fun i u => linkUnit (m.unlinked module).units u i) =
      m.units.map fun u => { u.recoded module with operations := [] } := by
    refine ext_getElem? fun i => ?_
    rw [getElem?_mapIdx, unlinked, getElem?_map, getElem?_map]
    cases hu : m.units[i]? with
    | none => rfl
    | some u => exact congrArg some (h.linkUnit_unlinked module hu)
  have hscales : (m.unlinked module).scales.mapIdx
        (fun i s => linkScale (m.unlinked module).scales s i) =
      m.scales.map (·.recoded module) := by
    refine ext_getElem? fun i => ?_
    rw [getElem?_mapIdx, unlinked, getElem?_map, getElem?_map]
    cases hs : m.scales[i]? with
    | none => rfl
    | some s => exact congrArg some (h.linkScale_unlinked module hs)
  have htable : operationTable (m.units.map fun u => { u.recoded module with operations := [] }) =
      m.operations := by
    have hcore : (m.units.map fun u => { u.recoded module with operations := [] }).map core =
        m.units.map core := by
      rw [map_map]
      rfl
    rw [operationTable_congr hcore]
    exact h.linked.operationTable_eq
  have hlengths : (m.unlinked module).units.length = m.units.length ∧
      (m.unlinked module).scales.length = m.scales.length :=
    ⟨length_map _, length_map _⟩
  rw [connected, hunits, resolveOperations, htable, beginLate, hlengths.1, hlengths.2]
  congr 1
  refine ext_getElem? fun i => ?_
  rw [getElem?_mapIdx, getElem?_map, getElem?_map]
  cases hu : m.units[i]? with
  | none => rfl
  | some u =>
    rw [h.linked.places_involves hu]
    rfl

end Linked

/-! ### The whole way -/

theorem read_empty (source : Option String) : Declarations.read source "" = ({}, { source }) := by
  have htokens : Token.significant "" = [⟨.eof, "", Span.ofText .start []⟩] := by
    have hall : Token.all "" = Token.allFrom .start [] := rfl
    rw [Token.significant, hall, Token.allFrom]
    rfl
  rw [Declarations.read, htokens]
  rfl

theorem elaborate_empty (options : Options) (m : Model) (ds : Diagnostics) :
    elaborate options m ds {} = .ok (m, ds) := by
  have hunits : elaborateUnits options m ds [] = .ok (start m ds) := by
    simp [elaborateUnits, declareUnits, encodeUnits, encodePass, resolveAliases, removeUnits_nil]
  rw [elaborate_eq hunits]
  rfl

/-- A complete model that was restored is extended by nothing, and is what it was. -/
theorem Model.Complete.extend_empty {m : Model} (h : m.Complete)
    (hids : ∀ f ∈ m.familyIds, f.toNat + 1 < UInt32.size) (module : String) (options : Options) :
    (m.unlinked module).extend "" options =
      .ok ⟨m.recoded module, { source := options.source }⟩ := by
  have helab : elaborate options (m.unlinked module).beginLate
      (Declarations.read options.source "").2 (Declarations.read options.source "").1 =
        .ok ((m.unlinked module).beginLate, { source := options.source }) := by
    rw [read_empty]
    exact elaborate_empty ..
  have hunits : ∀ u ∈ (m.unlinked module).beginLate.units, u.family.isSome = true :=
    forall_mem_map.mpr fun u hu => (h.units u hu).2.1
  have hscales : ∀ s ∈ (m.unlinked module).beginLate.scales, s.family.isSome = true :=
    forall_mem_map.mpr fun s hs => (h.scales s hs).2.1
  have hrelated : relationErrors (m.unlinked module).beginLate.units = [] := by
    refine relationErrors_eq_nil_congr ?_ h.related
    rw [beginLate, unlinked, map_map]
    rfl
  obtain ⟨hnumbered, hnumbered', hopened⟩ := numbered_known hunits hscales options.firstFamily
  have hsame : (m.unlinked module).beginLate.familyIds = m.familyIds := by
    unfold familyIds beginLate unlinked
    rw [filterMap_map, filterMap_map]
    rfl
  have hroom : (m.unlinked module).beginLate.HasRoom options.firstFamily := by
    rw [HasRoom, hopened, hsame]
    exact ⟨options.firstFamily.toNat_lt_size, hids⟩
  rw [extend_eq helab, if_pos hroom, finished, resolved, hnumbered, hnumbered', hrelated,
    ← h.resolve_unlinked module]
  rfl

section Connected

variable {m : Model} {units : List UnitEntry} {scales : List ScaleEntry}

/-- A unit of a connected model is one of those that were connected. -/
theorem exists_unit_of_mem_connected (hu : u ∈ (m.connected units scales).resolveOperations.units) :
    ∃ v ∈ units, (v.valid, v.family, v.origin, v.redeclared) =
      (u.valid, u.family, u.origin, u.redeclared) := by
  have hmem := mem_map_of_mem (f := fun u => (u.valid, u.family, u.origin, u.redeclared)) hu
  rw [Catalog.map_units_connected (fun units u i => ?_) fun _ _ => rfl] at hmem
  · exact mem_map.mp hmem
  · unfold linkUnit
    split <;> rfl

/-- A scale of a connected model is one of those that were connected. -/
theorem exists_scale_of_mem_connected
    (hs : s ∈ (m.connected units scales).resolveOperations.scales) :
    ∃ t ∈ scales, (t.valid, t.family, t.unit) = (s.valid, s.family, s.unit) := by
  have hmem := mem_map_of_mem (f := fun s => (s.valid, s.family, s.unit)) hs
  rw [resolveOperations, connected, map_mapIdx_eq fun i s => ?_] at hmem
  · exact mem_map.mp hmem
  · unfold linkScale
    split <;> rfl

/-- Late entries that stand alone are complete once they are in families that can be related. -/
theorem complete_connected (h : LateEntries {} m.units m.scales)
    (hlength : fs.length = m.units.length)
    (hrelated : relationErrors ((m.units.zip fs).map fun p => p.1.inFamily p.2) = []) :
    (m.connected ((m.units.zip fs).map fun p => p.1.inFamily p.2)
      ((m.scales.zip gs).map fun p => p.1.inFamily p.2)).resolveOperations.Complete where
  units u hu := by
    obtain ⟨v, hv, heq⟩ := exists_unit_of_mem_connected hu
    obtain ⟨p, hp, rfl⟩ := mem_map.mp hv
    have hmem := (of_mem_zip hp).1
    simp only [Prod.mk.injEq] at heq
    obtain ⟨hvalid, hfamily, horigin, hredeclared⟩ := heq
    rw [← hvalid, ← hfamily, ← horigin, ← hredeclared]
    exact ⟨(h.units p.1 hmem).1, rfl, h.declared p.1 hmem, h.redeclared p.1 hmem⟩
  scales s hs := by
    obtain ⟨t, ht, heq⟩ := exists_scale_of_mem_connected hs
    obtain ⟨p, hp, rfl⟩ := mem_map.mp ht
    have hmem := (of_mem_zip hp).1
    simp only [Prod.mk.injEq] at heq
    obtain ⟨hvalid, hfamily, hunit⟩ := heq
    obtain ⟨name, i, hi, hfind⟩ := h.unit p.1 hmem
    rw [← hvalid, ← hfamily, ← hunit]
    refine ⟨(h.scales p.1 hmem).1, rfl, name, i, hi, (findUnit?_congr ?_ name).trans hfind⟩
    -- units keep their names in families, and when they are connected
    refine Eq.trans (Catalog.map_units_connected (fun units u i => ?_) fun _ _ => rfl) ?_
    · unfold linkUnit
      split <;> rfl
    · show _ = m.units.map (·.name)
      conv_rhs => rw [← map_fst_zip hlength.ge]
      rw [map_map, map_map]
      rfl
  linked := linked_resolved ..
  related := relationErrors_eq_nil_congr (map_linkKey_connected ..).symm hrelated

end Connected

/-- **What is compiled without errors is a complete model**, which has not come to the last number.
-/
theorem complete_of_compile (h : compile text options = .ok compilation)
    (hok : compilation.isSuccess = true) :
    compilation.model.Complete ∧ ∀ f ∈ compilation.model.familyIds, f.toNat + 1 < UInt32.size := by
  obtain ⟨decls, late, scales, hsound, hroom, hmodel, hrelated⟩ := sound_of_compile h hok
  have hlate : LateEntries {} (extended options {} late scales).units
      (extended options {} late scales).scales := hsound.lateEntries
  have hscales : ∀ s ∈ (extended options {} late scales).scales,
      (s.valid = true ∧ s.family = none) ∧
        ∃ i, s.unit = some i ∧ i < (extended options {} late scales).units.length := by
    intro s hs
    obtain ⟨_, i, hi, hfind⟩ := hlate.unit s hs
    exact ⟨hlate.scales s hs, i, hi, getLast?_places_lt hfind⟩
  obtain ⟨fs, gs, hlength, hunits, hscales⟩ :=
    numbered_new hlate.units hscales options.firstFamily
  rw [hmodel]
  refine ⟨?_, fun f hf => hroom.lt_of_mem_resolved hf⟩
  rw [hunits] at hrelated
  rw [resolved, hunits, hscales]
  exact complete_connected hlate hlength hrelated

/-- **A module can be taken back to the model that it was made from.** If a text compiles without
errors and no factor is zero, the module of the model can be restored, and the restored model
extended by nothing is the model again, with no report. Only the texts that stand for values differ,
and that nothing is late. -/
theorem extend_restore_ofModel {text : String} {options : Options} {compilation : Compilation}
    (h : compile text options = .ok compilation) (hok : compilation.isSuccess = true)
    (hzero : ∀ u ∈ compilation.model.units, u.factor.value.isZero = false) (module : String)
    (later : Options) :
    ∃ restored, (({} : Catalog).append (.ofModel module compilation.model)).restore = .ok restored ∧
      restored.extend "" later =
        .ok ⟨compilation.model.recoded module, { source := later.source }⟩ := by
  obtain ⟨hcomplete, hids⟩ := complete_of_compile h hok
  have hrestored : (({} : Catalog).append (.ofModel module compilation.model)).restored =
      compilation.model.unlinked module := by
    have hunits := hcomplete.restored_units module
    have hscales := hcomplete.restored_scales module
    simp only [Catalog.restored, Catalog.append, LoadedModule.ofModel, nil_append]
    rw [hunits, hscales]
    rfl
  obtain ⟨decls, late, scales, hsound, hdescribes⟩ := compile_noErrors h hok module
  have hunits := (hdescribes.isSound hsound (by simp)).units
  have hexists : ∃ m, (({} : Catalog).append (.ofModel module compilation.model)).restore = .ok m := by
    refine (Catalog.restore_ok_iff _).mpr ⟨fun u hu => ⟨(hunits u hu).1, ?_⟩, fun s hs => ?_⟩
    · obtain ⟨e, he, hdescribe⟩ := mem_filterMap.mp hu
      have hfactor : u.factor = e.factor.value := by
        unfold UnitEntry.describe? at hdescribe
        split_ifs at hdescribe
        obtain ⟨f, -, rfl⟩ := Option.map_eq_some_iff.mp hdescribe
        rfl
      rw [hfactor]
      exact hzero e he
    · exact hdescribes.exists_unit_of_scale hsound (by simp) hs
  obtain ⟨restored, hok⟩ := hexists
  refine ⟨restored, hok, ?_⟩
  rw [Catalog.restore_eq_ok hok, hrestored]
  exact hcomplete.extend_empty hids module later

/-- Lengths and areas, with heights and depths from the level of the sea. -/
def seaAndLand : String :=
  "unit<decimal> Meter \"m\" = <Length>;
   unit<decimal> Foot \"ft\" = 0.3 * Meter;
   unit<decimal> SquareMeter \"m2\" = Meter * Meter;
   scale Height SeaLevel = 0 from Meter;
   scale Depth SeaLevel = 1 from Foot;"

/-- Feet and depths have their primes again, and products of lengths are areas. -/
theorem extend_restore_ofModel_seaAndLand :
    ∃ compilation, compile seaAndLand {} = .ok compilation ∧ compilation.isSuccess = true ∧
      (∀ u ∈ compilation.model.units, u.factor.value.isZero = false) ∧
      compilation.model.units.map (·.prime) = [none, some 0, none] ∧
      compilation.model.operations.length = 6 ∧
      ∃ restored, (({} : Catalog).append (.ofModel "sea" compilation.model)).restore = .ok restored ∧
        restored.extend "" {} = .ok ⟨compilation.model.recoded "sea", {}⟩ := by
  obtain ⟨c, hc, hok, hzero, hprimes, hoperations⟩ : ∃ c, compile seaAndLand {} = .ok c ∧
      c.isSuccess = true ∧ (∀ u ∈ c.model.units, u.factor.value.isZero = false) ∧
      c.model.units.map (·.prime) = [none, some 0, none] ∧ c.model.operations.length = 6 := by
    decide +kernel
  exact ⟨c, hc, hok, hzero, hprimes, hoperations, extend_restore_ofModel hc hok hzero "sea" {}⟩

end Quantity
