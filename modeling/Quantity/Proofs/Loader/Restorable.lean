import Quantity.Proofs.Catalog.Stale
import Quantity.Proofs.Catalog.Vetted
import Quantity.Proofs.Loader.Calls
import Quantity.Proofs.Model.Kinds

/-!
# Restorable catalogs

Every load begins with the catalog as a model. A catalog that starts empty, and grows by modules
of compiled definitions, can be restored unless a symbolic factor is zero: such a factor is not
found out when the definitions are compiled, and from then on no text can be loaded. A stored
module is another matter, since nothing is asked about the kinds of its entries when it is taken.
`Host.run_restorable_iff` says that there are no other obstacles.
-/

namespace Quantity

open Model Elaborate Quantity.Files List

/-! ### Modules of compiled definitions -/

/-- The module has the entries that stand behind a catalog, each in some family. -/
structure LoadedModule.Describes (m : LoadedModule) (c : Catalog) (us : List UnitEntry)
    (ss : List ScaleEntry) : Prop where
  units : List.Forall₂ (fun u d => ∃ f, d = u.descriptor m.name f) us m.units
  scales : ∀ d ∈ m.scales, ∃ s ∈ ss, ∃ i e f, s.unit = some i ∧
    (c.restored.units ++ us)[i]? = some e ∧ d = s.descriptor m.name e f

section Describes

variable {options : Options} {c : Catalog} {decls : Declarations} {late : List UnitEntry}
  {scales : List ScaleEntry} {m : LoadedModule}

theorem LoadedModule.Describes.exists_unit (h : m.Describes c us scales) (hd : d ∈ m.units) :
    ∃ u ∈ us, ∃ f, d = u.descriptor m.name f := by
  obtain ⟨k, hk, rfl⟩ := mem_iff_getElem.mp hd
  have hk' : k < us.length := h.units.length_eq ▸ hk
  exact ⟨us[k], getElem_mem hk', h.units.get hk' hk⟩

theorem isKinded_restored (h : ∀ u ∈ c.units, u.factor.kind = u.kind) :
    ∀ u ∈ c.restored.units, u.IsKinded := by
  intro u hu
  obtain ⟨v, hv, rfl⟩ := mem_map.mp hu
  exact h v hv

variable (h : m.Describes c (kept options c.restored late) scales)
  (hsound : Sound options c.restored decls late scales)
  (hkinds : ∀ u ∈ c.units, u.factor.kind = u.kind)
include h hsound hkinds

theorem LoadedModule.Describes.exists_unit_of_scale (hd : d ∈ m.scales) :
    ∃ u, (c.units ++ m.units).reverse.find? d.owns = some u ∧ d.offset.kind = u.kind := by
  obtain ⟨s, hs, i, e, f, hi, he, rfl⟩ := h.scales d hd
  obtain ⟨name, i', e', hi', hfind, he', hkind⟩ := hsound.kind_offset (isKinded_restored hkinds) hs
  rw [hi] at hi'
  cases hi'
  rw [he] at he'
  cases he'
  obtain ⟨u, -, hu, howns⟩ := Catalog.find?_owns
    (Catalog.describes_append c h.units hsound.lateEntries.declared) hfind he s f
  exact ⟨u, howns, hkind.trans hu.kind.symm⟩

/-- **The module of sound declarations joins the catalog they were compiled on.** -/
theorem LoadedModule.Describes.joins : m.Joins c where
  units d hd := by
    obtain ⟨u, -, f, rfl⟩ := h.exists_unit hd
    rfl
  scales d hd := by
    obtain ⟨s, -, i, e, f, -, -, rfl⟩ := h.scales d hd
    rfl
  found d hd := by
    obtain ⟨u, hu, -⟩ := h.exists_unit_of_scale hsound hkinds hd
    exact ⟨u, hu⟩

/-- **The module of sound declarations has sound entries.** -/
theorem LoadedModule.Describes.isSound : m.IsSound c where
  units d hd := by
    obtain ⟨u, hu, f, rfl⟩ := h.exists_unit hd
    have hlate := mem_of_mem_filter hu
    exact ⟨hsound.solution.isKinded (isKinded_restored hkinds) u hlate,
      hsound.solution.isZero_factor hlate⟩
  scales d hd v hv := by
    obtain ⟨u, hu, hkind⟩ := h.exists_unit_of_scale hsound hkinds hd
    rw [hu] at hv
    cases hv
    exact hkind

end Describes

/-- The module of a model is that of its entries, if they are new. -/
theorem describes_ofModel {m : Model} (h : LateEntries {} m.units m.scales) (name : String)
    (firstFamily : FamilyId) :
    (LoadedModule.ofModel name (m.resolved firstFamily)).Describes {} m.units m.scales := by
  have hplace : ∀ s ∈ m.scales, ∃ i, s.unit = some i ∧ i < m.units.length := by
    intro s hs
    obtain ⟨_, i, hi, hfind⟩ := h.unit s hs
    exact ⟨i, hi, getLast?_places_lt hfind⟩
  obtain ⟨fs, gs, hlength, hunits, hscales⟩ :=
    numbered_new h.units (fun s hs => ⟨h.scales s hs, hplace s hs⟩) firstFamily
  have hlabel : ((m.units.zip fs).map fun p => p.1.inFamily p.2).map (fun u => (u.name, u.origin)) =
      m.units.map fun u => (u.name, u.origin) := by
    conv_rhs => rw [← map_fst_zip hlength.ge]
    rw [map_map, map_map]
    rfl
  rw [resolved, hunits, hscales, Catalog.ofModel_connected hlabel]
  constructor
  · show List.Forall₂ _ m.units (List.filterMap _ _)
    rw [UnitEntry.filterMap_describe? fun u hu => (h.units u hu).1]
    exact UnitEntry.forall₂_descriptor hlength name
  · intro d hd
    obtain ⟨t, ht, htd⟩ := mem_filterMap.mp hd
    obtain ⟨p, hp, rfl⟩ := mem_map.mp ht
    have hs : p.1 ∈ m.scales := (of_mem_zip hp).1
    obtain ⟨i, hi, hlt⟩ := hplace p.1 hs
    have he := getElem?_eq_getElem hlt
    rw [ScaleEntry.describe?_inFamily (h.scales p.1 hs).1 hi he] at htd
    exact ⟨p.1, hs, i, m.units[i], p.2, hi, he, (Option.some.inj htd).symm⟩

/-- A text that compiles without errors has sound declarations, whose entries are put into
families. -/
theorem sound_of_compile (h : compile text options = .ok compilation)
    (hok : compilation.isSuccess = true) :
    ∃ decls late scales, Sound options ({} : Catalog).restored decls late scales ∧
      (extended options {} late scales).HasRoom options.firstFamily ∧
      compilation.model = (extended options {} late scales).resolved options.firstFamily ∧
      relationErrors ((extended options {} late scales).numberedUnits options.firstFamily) = [] := by
  obtain ⟨e, ds, helab, hroom, rfl⟩ := exists_finished (m := {}) h
  obtain ⟨hds, hrelated⟩ :=
    (hasErrors_pushAll_relationErrors ds _).mp ((Bool.not_eq_true' _).mp hok)
  obtain ⟨late, scales, hsound, rfl, -⟩ := elaborate_noErrors helab hds
  exact ⟨_, late, scales, hsound, hroom, rfl, hrelated⟩

/-- A model that was compiled without errors has the entries of sound declarations. -/
theorem compile_noErrors (h : compile text options = .ok compilation)
    (hok : compilation.isSuccess = true) (name : String) :
    ∃ decls late scales, Sound options ({} : Catalog).restored decls late scales ∧
      (LoadedModule.ofModel name compilation.model).Describes {}
        (kept options ({} : Catalog).restored late) scales := by
  obtain ⟨decls, late, scales, hsound, -, hmodel, -⟩ := sound_of_compile h hok
  rw [hmodel]
  exact ⟨decls, late, scales, hsound, describes_ofModel hsound.lateEntries name _⟩

/-- The module of late definitions has the entries that they add. -/
theorem Loader.Compiled.describes (hl : l.builder = .ofDescriptors)
    (h : l.Compiled c module source text m) :
    ∃ late scales, Compiles l c source text late scales ∧
      m.Describes c (addedUnits l c source late) scales := by
  obtain ⟨request, ds, a, hprepare, hbuild, hload⟩ := h
  rw [hl] at hbuild hload
  obtain ⟨-, rfl⟩ := Artifact.eq_of_ifOwn hbuild
  obtain ⟨-, rfl⟩ := Artifact.eq_of_ifOwn hload
  obtain ⟨late, scales, bundle, hcompiles, -, -, rfl, -⟩ := prepare_eq_ok_iff.mp hprepare
  refine ⟨late, scales, hcompiles, Catalog.forall₂_lateUnits c module _, fun d hd => ?_⟩
  obtain ⟨p, hp, hpd⟩ := mem_filterMap.mp hd
  obtain ⟨i, e, hi, he, hdescribe⟩ := Catalog.describe?_late hcompiles.lateEntries module hp
  rw [hdescribe] at hpd
  have hs : p.1 ∈ scales := Catalog.map_fst_scalesNumbered c _ scales ▸ mem_map_of_mem hp
  exact ⟨p.1, hs, i, e, p.2, hi, he, (Option.some.inj hpd).symm⟩

theorem TakesStored.joins (h : TakesStored l host path a) (hl : l.builder = .ofDescriptors)
    (hload : l.builder.load a = .ok m) : m.Joins host.catalog := by
  rw [hl] at hload
  obtain ⟨hown, rfl⟩ := Artifact.eq_of_ifOwn hload
  obtain ⟨-, -, -, hscales⟩ := Catalog.staleReason?_eq_none_iff.mp h.fits
  refine ⟨hown.1, hown.2, fun s hs => ?_⟩
  have hstale := hscales s hs
  unfold Catalog.staleScale? Catalog.familyOfUnit? at hstale
  cases hfind : (a.units ++ host.catalog.units).find?
      fun u => u.name = s.unit && u.module = s.unitModule with
  | none =>
    rw [hfind] at hstale
    cases hstale
  | some u =>
    have hmem := mem_of_find?_eq_some hfind
    have hlabel := find?_some hfind
    refine Option.isSome_iff_exists.mp (find?_isSome.mpr ⟨u, ?_, ?_⟩)
    · simp only [mem_reverse, mem_append] at hmem ⊢
      exact hmem.symm
    · simp only [Bool.and_eq_true] at hlabel
      simp [ScaleDescriptor.owns, hlabel]

/-! ### Calls -/

namespace Call

/-- A call as hosts make it: a module that is registered was compiled without errors, and loads
take the descriptors themselves for the types. -/
def IsRegular : Call → Prop
  | register m => ∃ name text options compilation, compile text options = .ok compilation ∧
      compilation.isSuccess = true ∧ m = .ofModel name compilation.model
  | loadText l _ _ | loadFile l _ _ => l.builder = .ofDescriptors

theorem IsRegular.keepsNames {call : Call} (h : call.IsRegular) : call.KeepsNames := by
  have hbuilder {b : Builder} (hb : b = .ofDescriptors) : b.KeepsNames :=
    hb ▸ Builder.keepsNames_ofDescriptors
  cases call with
  | register m => trivial
  | loadText l cancellation text => exact hbuilder h
  | loadFile l cancellation path => exact hbuilder h

/-- The module that a call takes from the store. -/
def stored? (host : Host) : Call → Option String
  | register _ | loadText .. => none
  | loadFile l cancellation path =>
    ((l.loadFile cancellation host path).result.toOption.filter (·.stored)).map (·.module)

/-- The module of late definitions joins the catalog they were compiled on, and its entries are
sound. -/
theorem joins_of_compiled {l : Loader} (hl : l.builder = .ofDescriptors)
    (h : l.Compiled c module source text m) : m.Joins c ∧ m.IsSound c := by
  obtain ⟨late, scales, hcompiles, hdescribes⟩ := h.describes hl
  obtain ⟨hunits, -⟩ := c.restore_ok_iff.mp ⟨_, hcompiles.restored⟩
  have hkinds : ∀ u ∈ c.units, u.factor.kind = u.kind := fun u hu => (hunits u hu).1
  exact ⟨hdescribes.joins hcompiles.sound hkinds, hdescribes.isSound hcompiles.sound hkinds⟩

/-- A module that was compiled beforehand stands alone, so it joins every catalog. -/
theorem joins_of_registered (h : (register m).IsRegular) (c : Catalog) :
    m.Joins c ∧ m.IsSound c := by
  obtain ⟨name, text, options, compilation, hcompile, hok, rfl⟩ := h
  obtain ⟨decls, late, scales, hsound, hdescribes⟩ := compile_noErrors hcompile hok name
  have hjoins := hdescribes.joins hsound (by simp)
  exact ⟨hjoins.of_empty c, (hdescribes.isSound hsound (by simp)).of_empty hjoins c⟩

/-- **What a call brings joins the catalog**, and its entries are sound unless they were stored. -/
theorem Brings.joins {call : Call} (h : call.IsRegular) (hbrings : call.Brings host m) :
    m.Joins host.catalog ∧ (call.stored? host ≠ some m.name → m.IsSound host.catalog) := by
  cases call with
  | register m' =>
    obtain rfl : m = m' := hbrings
    obtain ⟨hjoins, hsound⟩ := joins_of_registered h host.catalog
    exact ⟨hjoins, fun _ => hsound⟩
  | loadText l cancellation text =>
    obtain ⟨hjoins, hsound⟩ := joins_of_compiled h hbrings
    exact ⟨hjoins, fun _ => hsound⟩
  | loadFile l cancellation path =>
    rcases hbrings with ⟨text, -, hcompiled⟩ | ⟨a, htaken, hload⟩
    · obtain ⟨hjoins, hsound⟩ := joins_of_compiled h hcompiled
      exact ⟨hjoins, fun _ => hsound⟩
    · refine ⟨htaken.joins h hload, fun hstored => absurd ?_ hstored⟩
      have hname : m.name = a.module := (IsRegular.keepsNames h).stored a m hload
      rw [stored?, htaken.loadFile, Loader.publishStored, hload, hname]
      rfl

end Call

/-! ### Runs -/

/-- The module that an event takes from the store. -/
def Event.stored? (host : Host) : Event → Option String
  | call c => c.stored? host
  | edit _ => none

/-- The modules that a run takes from the store. -/
def Host.stored (host : Host) : List Event → List String
  | [] => []
  | event :: events => (event.stored? host).toList ++ (event.run host).stored events

theorem Catalog.eq_append {c c' : Catalog} {m : LoadedModule} (hunits : c'.units = c.units ++ m.units)
    (hscales : c'.scales = c.scales ++ m.scales) (hmodules : c'.modules = c.modules ++ [m.name]) :
    c' = c.append m := by
  cases c'
  cases hunits
  cases hscales
  cases hmodules
  rfl

namespace Catalog.Vetted

variable {stored : List String} {host : Host}

/-- **A call keeps the catalog vetted**, with the module that it takes from the store. -/
theorem call {call : Call} (h : Vetted stored host.catalog) (hregular : call.IsRegular) :
    Vetted (stored ++ (call.stored? host).toList) (call.run host).host.catalog := by
  have hatomic := call.isAtomic hregular.keepsNames host
  have hmono := h.mono (subset_append_left stored (call.stored? host).toList)
  generalize call.run host = reply at hatomic
  -- a call that fails leaves the catalog as it was, so only what is added counts
  cases hatomic with
  | failed catalog disk =>
    rw [catalog]
    exact hmono
  | @added m after brought fresh units scales modules =>
    have hafter : after.catalog = host.catalog.append m := Catalog.eq_append units scales modules
    rw [hafter]
    obtain ⟨hjoins, hsound⟩ := brought.joins hregular
    refine hmono.append fresh hjoins fun hnot => hsound fun hstored => hnot ?_
    rw [hstored]
    exact mem_append_right _ (mem_singleton_self _)

/-- **A run keeps the catalog vetted**, with the modules that it takes from the store. -/
theorem run (h : Vetted stored host.catalog)
    (hregular : ∀ call, .call call ∈ events → call.IsRegular) :
    Vetted (stored ++ host.stored events) (host.run events).catalog := by
  -- by the events, with the modules that were taken from the store so far
  induction events generalizing host stored with
  | nil =>
    rw [Host.stored, append_nil]
    exact h
  | cons event events ih =>
    have hstep : Vetted (stored ++ (event.stored? host).toList) (event.run host).catalog := by
      cases event with
      | edit disk => exact h.mono (subset_append_left _ _)
      | call call => exact h.call (hregular call mem_cons_self)
    rw [Host.stored, ← List.append_assoc]
    exact ih hstep fun call hcall => hregular call (mem_cons_of_mem _ hcall)

end Catalog.Vetted

/-! ### Loads that fail to restore the catalog -/

/-- A load fails because the catalog cannot be restored. -/
def Outcome.FailsToRestore (o : Outcome) : Prop := ∃ e, o.result = .error (.restore e)

section FailsToRestore

variable {l : Loader} {host : Host} {cancellation : Cancellation}

theorem mapError_eq_error_iff {x : Except ε α} :
    x.mapError f = .error e ↔ ∃ cause, x = .error cause ∧ f cause = e := by
  cases x with
  | error cause => simp [Except.mapError]
  | ok a => simp [Except.mapError]

/-- A preparation fails to restore the catalog exactly if the catalog cannot be restored. -/
theorem prepare_eq_restore_iff :
    l.prepare host.catalog module source text = .error (.restore e) ↔
      host.catalog.restore = .error e := by
  constructor
  · intro h
    rcases bind_eq_error_iff.mp h with h | ⟨model, -, h⟩
    · obtain ⟨cause, hcause, heq⟩ := mapError_eq_error_iff.mp h
      cases heq
      exact hcause
    dsimp only at h
    cases hnext : host.catalog.nextFamily? with
    | none =>
      rw [hnext] at h
      cases h
    | some next =>
    rw [hnext] at h
    rcases bind_eq_error_iff.mp h with h | ⟨compilation, -, h⟩
    · obtain ⟨cause, -, heq⟩ := mapError_eq_error_iff.mp h
      cases heq
    -- what is left are the errors of the definitions, and of the source that is generated
    split at h
    · cases h
    split at h
    · cases h
    rcases bind_eq_error_iff.mp h with h | ⟨bundle, -, h⟩
    · obtain ⟨cause, -, heq⟩ := mapError_eq_error_iff.mp h
      cases heq
    · cases h
  · intro h
    exact bind_eq_error_iff.mpr (.inl (mapError_eq_error_iff.mpr ⟨e, h, rfl⟩))

theorem not_failsToRestore_buildAndPublish (isFile : Bool) (module : String)
    (request : BuildRequest) (ds : Diagnostics) :
    ¬ (l.buildAndPublish cancellation isFile host module request ds).FailsToRestore := by
  rintro ⟨cause, h⟩
  rcases l.buildAndPublish_ends cancellation isFile host module request ds with
    ⟨e, asked, hne, heq⟩ | ⟨-, a, m, -, -, disk, ⟨e, -, heq⟩ | heq⟩
  · rw [heq] at h
    exact hne cause (Except.error.inj h)
  · rw [heq] at h
    cases h
  · rw [heq] at h
    cases h

theorem failsToRestore_compileAndPublish (isFile : Bool) (module source text : String) :
    (l.compileAndPublish cancellation isFile host module source text).FailsToRestore ↔
      ¬ ∃ model, host.catalog.restore = .ok model := by
  unfold Loader.compileAndPublish
  cases hprepare : l.prepare host.catalog module source text with
  | error e =>
    constructor
    · rintro ⟨cause, hcause⟩ ⟨model, hmodel⟩
      obtain rfl : e = .restore cause := Except.error.inj hcause
      rw [prepare_eq_restore_iff.mp hprepare] at hmodel
      cases hmodel
    · intro hnone
      cases hrestore : host.catalog.restore with
      | ok model => exact absurd ⟨model, hrestore⟩ hnone
      | error cause =>
        rw [prepare_eq_restore_iff.mpr hrestore] at hprepare
        cases hprepare
        exact ⟨cause, rfl⟩
  | ok prepared =>
    obtain ⟨model, hmodel, -⟩ := prepare_eq_ok_stages.mp hprepare
    refine iff_of_false (not_failsToRestore_buildAndPublish isFile module _ _) ?_
    exact not_not_intro ⟨model, hmodel⟩

/-- A load from a file may get by without the catalog as a model. -/
theorem not_restorable_of_loadFile (h : (l.loadFile cancellation host path).FailsToRestore) :
    ¬ ∃ model, host.catalog.restore = .ok model := by
  rcases l.loadFile_cases cancellation host path with
    ⟨e, hne, heq⟩ | ⟨-, stale, heq⟩ | ⟨a, htaken, heq⟩
  · rw [heq] at h
    obtain ⟨cause, hcause⟩ := h
    exact absurd (Except.error.inj hcause) (hne cause)
  · rw [heq] at h
    unfold Loader.loadSource at h
    cases hread : host.disk.read path with
    | error e =>
      rw [hread] at h
      obtain ⟨cause, hcause⟩ := h
      cases hcause
    | ok text =>
      rw [hread] at h
      exact (failsToRestore_compileAndPublish ..).mp h
  · rw [heq] at h
    obtain ⟨cause, hcause⟩ := h
    unfold Loader.publishStored at hcause
    cases hload : l.builder.load a with
    | error report =>
      rw [hload] at hcause
      cases hcause
    | ok m =>
      rw [hload] at hcause
      cases hcause

end FailsToRestore

/-- **What stands in the way of the next load**, after any run from an empty catalog: a factor that
is zero, which is possible for symbolic factors and in stored modules only, or kinds that do not fit
in a stored module. If there is nothing of the sort, the catalog can be restored, and no load fails
to do so. Otherwise every load of a text fails. -/
theorem Host.run_restorable_iff {host : Host} (hempty : host.catalog = {}) {events : List Event}
    (hregular : ∀ call, .call call ∈ events → call.IsRegular) :
    ((∃ model, (host.run events).catalog.restore = .ok model) ↔
      (∀ u ∈ (host.run events).catalog.units, u.factor.isZero = false) ∧
        (∀ u ∈ (host.run events).catalog.units, u.module ∈ host.stored events →
          u.factor.kind = u.kind) ∧
        ∀ s ∈ (host.run events).catalog.scales, s.module ∈ host.stored events →
          s.IsSound (host.run events).catalog.units) ∧
      (∀ u ∈ (host.run events).catalog.units, u.factor.isZero = true →
        u.module ∈ host.stored events ∨ u.constant = false) ∧
      (∀ (l : Loader) cancellation text,
        (l.loadText cancellation (host.run events) text).FailsToRestore ↔
          ¬ ∃ model, (host.run events).catalog.restore = .ok model) ∧
      ∀ (l : Loader) cancellation path,
        (l.loadFile cancellation (host.run events) path).FailsToRestore →
          ¬ ∃ model, (host.run events).catalog.restore = .ok model := by
  have hstart : Catalog.Vetted [] host.catalog := by
    rw [hempty]
    exact Catalog.vetted_empty []
  have hvetted := hstart.run hregular
  refine ⟨hvetted.restore_ok_iff, fun u hu hzero => ?_, fun l cancellation text => ?_,
    fun l cancellation path => not_restorable_of_loadFile⟩
  · by_cases hstored : u.module ∈ host.stored events
    · exact .inl hstored
    · refine .inr (Bool.eq_false_iff.mpr fun hconstant => ?_)
      rw [(hvetted.units u hu hstored).2 hconstant] at hzero
      cases hzero
  · exact failsToRestore_compileAndPublish ..

def modelOf (text : String) : Model :=
  match compile text {} with
  | .ok compilation => compilation.model
  | .error _ => {}

/-- A host registers meters, and then loads a unit with a symbolic factor that is zero. -/
def metersAndNothing : List Event :=
  [.call (.register (.ofModel "si" (modelOf "unit<decimal> Meter \"m\" = <Length>;"))),
    .call (.loadText {} .never "unit<decimal> Nothing \"n\" = 0 * \"k\" * <Mass>;")]

theorem isRegular_metersAndNothing : ∀ call, .call call ∈ metersAndNothing → call.IsRegular := by
  intro call hcall
  simp only [metersAndNothing, mem_cons, Event.call.injEq, not_mem_nil, or_false] at hcall
  rcases hcall with rfl | rfl
  · have hok : (compile "unit<decimal> Meter \"m\" = <Length>;" {}).toOption.any (·.isSuccess) =
        true := by decide +kernel
    cases hcompile : compile "unit<decimal> Meter \"m\" = <Length>;" {} with
    | error e =>
      rw [hcompile] at hok
      cases hok
    | ok compilation =>
      rw [hcompile] at hok
      refine ⟨"si", _, {}, compilation, hcompile, hok, ?_⟩
      unfold modelOf
      rw [hcompile]
  · rfl

/-- Both calls succeed, but the feet that come next cannot be loaded. -/
theorem Host.run_restorable_iff_nothing :
    (∀ call, .call call ∈ metersAndNothing → call.IsRegular) ∧
      (Host.run {} metersAndNothing).catalog.modules = ["si", "late_1"] ∧
      (¬ ∃ model, (Host.run {} metersAndNothing).catalog.restore = .ok model) ∧
      (Loader.loadText {} .never (Host.run {} metersAndNothing)
        "unit<decimal> Foot \"ft\" = 0.3048 * Meter;").FailsToRestore := by
  have hempty : ({} : Host).catalog = {} := rfl
  obtain ⟨hiff, -, htext, -⟩ := run_restorable_iff hempty isRegular_metersAndNothing
  have hmodules : (Host.run {} metersAndNothing).catalog.modules = ["si", "late_1"] ∧
      (Host.run {} metersAndNothing).catalog.units.any (·.factor.isZero) = true := by
    decide +kernel
  have hnot : ¬ ∃ model, (Host.run {} metersAndNothing).catalog.restore = .ok model := by
    intro hrestore
    obtain ⟨u, hu, hzero⟩ := any_eq_true.mp hmodules.2
    rw [(hiff.mp hrestore).1 u hu] at hzero
    cases hzero
  exact ⟨isRegular_metersAndNothing, hmodules.1, hnot, (htext {} .never _).mpr hnot⟩

end Quantity
