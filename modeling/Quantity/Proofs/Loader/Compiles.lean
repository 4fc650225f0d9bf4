import Quantity.Proofs.Catalog.Request
import Quantity.Proofs.Compile
import Quantity.Proofs.Model.Scales

/-!
# Late definitions on top of a catalog

What it takes to compile late definitions, said without the compiler: `prepare_eq_ok_iff` says
that a module is asked for exactly if the catalog can be restored, the text can be read, each
declaration has a meaning behind the units of the catalog, there are numbers for the families, the
units of a family can be related to each other, something is added, and source can be generated for
it.
-/

namespace Quantity

open Model Elaborate List

/-! ### Late entries -/

section Late

variable {options : Options} {c : Catalog} {decls : Declarations} {late : List UnitEntry}
  {scales : List ScaleEntry}

/-- A name is known in the restored model if it is in the catalog. -/
theorem isSome_findUnit?_restored (c : Catalog) (name : String) :
    (c.restored.findUnit? name).isSome = c.units.any (·.name = name) := by
  cases hn : c.restored.findUnit? name with
  | none =>
    have hnames := findUnit?_eq_none_iff.mp hn
    refine (any_eq_false.mpr fun u hu hname => ?_).symm
    exact hnames u.entry (mem_map_of_mem hu) (of_decide_eq_true hname)
  | some i =>
    obtain ⟨e, he, hname⟩ := mem_places.mp (mem_of_getLast? hn)
    obtain ⟨u, hu, rfl⟩ := mem_map.mp (mem_of_getElem? he)
    exact (any_eq_true.mpr ⟨u, hu, hname⟩).symm

theorem Elaborate.IsSolution.eq_complete (h : IsSolution options m us late) (hu : u ∈ late) :
    ∃ d ∈ us, ∃ e, u = complete options d e (fresh options d (redeclares options m d)) := by
  obtain ⟨k, hk⟩ := mem_iff_getElem?.mp hu
  obtain ⟨d, hd, -⟩ := h.decl hk
  obtain ⟨e, -, he⟩ := h.meaning k d hd
  rw [hk] at he
  exact ⟨d, mem_of_getElem? hd, e, Option.some.inj he⟩

/-- A late unit that stays begins a family of its own exactly if its name is known. -/
theorem redeclared_of_mem_kept (h : Fitting options c.restored decls.units late)
    (hu : u ∈ kept options c.restored late) : u.redeclared = c.units.any (·.name = u.name) := by
  obtain ⟨hmem, hstays⟩ := mem_filter.mp hu
  obtain ⟨d, hd, e, rfl⟩ := h.solution.eq_complete hmem
  rw [← isSome_findUnit?_restored]
  show redeclares options c.restored d = (c.restored.findUnit? d.name).isSome
  have hstays : (!(decide (options.redeclaration = .sameUnit) &&
      (c.restored.findUnit? d.name).isSome)) = true := hstays
  unfold redeclares
  cases hpolicy : options.redeclaration with
  | newFamily => rfl
  | sameUnit =>
    rw [hpolicy] at hstays
    cases hn : (c.restored.findUnit? d.name).isSome with
    | false => rfl
    | true =>
      rw [hn] at hstays
      cases hstays
  | reject =>
    rw [(h.admitted.admits d hd).name hpolicy]
    rfl

/-- The entries of sound declarations are ready to be put into families. -/
theorem Elaborate.Sound.lateEntries (h : Sound options c.restored decls late scales) :
    LateEntries c (kept options c.restored late) scales where
  units u hu := by
    obtain ⟨d, -, e, rfl⟩ := h.solution.eq_complete (mem_of_mem_filter hu)
    exact ⟨rfl, rfl⟩
  declared u hu := by
    obtain ⟨d, -, e, rfl⟩ := h.solution.eq_complete (mem_of_mem_filter hu)
    rfl
  redeclared u hu := redeclared_of_mem_kept h.toFitting hu
  scales s hs := by
    obtain ⟨d, -, hd⟩ := h.scalesFit.exists_mem hs
    obtain ⟨i, u, offset, -, -, -, -, rfl⟩ := encodeScale_eq_ok_iff.mp hd.meaning
    exact ⟨rfl, rfl⟩
  unit s hs := by
    obtain ⟨d, -, hd⟩ := h.scalesFit.exists_mem hs
    obtain ⟨i, u, offset, hi, -, -, -, rfl⟩ := encodeScale_eq_ok_iff.mp hd.meaning
    exact ⟨d.unit, i, hi, (get?_start_names _ _ d.unit).symm.trans hi⟩

end Late

/-! ### Compiling on top of a catalog -/

theorem mapError_eq_ok_iff {x : Except ε α} : x.mapError f = .ok a ↔ x = .ok a := by
  cases x with
  | error e => exact iff_of_false nofun nofun
  | ok b => constructor <;> rintro ⟨⟩ <;> rfl

theorem pure_eq_ok_iff : (pure a : Except ε α) = .ok b ↔ b = a :=
  ⟨fun h => (Except.ok.inj h).symm, fun h => h ▸ rfl⟩

theorem ite_throw_eq_ok_iff [Decidable p] :
    (if p then (throw e : Except ε β) >>= f else x) = .ok a ↔ ¬ p ∧ x = .ok a := by
  by_cases hp : p
  · rw [if_pos hp]
    exact iff_of_false nofun fun h => h.1 hp
  · rw [if_neg hp, and_iff_right hp]

/-- Units that cannot be related to their prime are reported as errors. -/
theorem isError_of_mem_relationErrors {units : List UnitEntry} (h : d ∈ relationErrors units) :
    d.isError = true := by
  obtain ⟨f, -, hd⟩ := mem_flatMap.mp h
  obtain ⟨i, -, hi⟩ := mem_filterMap.mp hd
  obtain ⟨result, -, hi⟩ := Option.bind_eq_some_iff.mp hi
  cases result with
  | ok _ => cases hi
  | error e =>
    obtain ⟨u, -, hi⟩ := Option.bind_eq_some_iff.mp hi
    obtain ⟨first, -, hi⟩ := Option.bind_eq_some_iff.mp hi
    obtain ⟨prime, -, hi⟩ := Option.bind_eq_some_iff.mp hi
    cases hi
    rfl

theorem hasErrors_pushAll_relationErrors (ds : Diagnostics) (units : List UnitEntry) :
    (ds.pushAll (relationErrors units)).hasErrors = false ↔
      ds.hasErrors = false ∧ relationErrors units = [] := by
  rw [Diagnostics.hasErrors_pushAll, Bool.or_eq_false_iff, any_eq_false,
    eq_nil_iff_forall_not_mem]
  refine and_congr Iff.rfl (forall_congr' fun d => ?_)
  exact ⟨fun h hd => h hd (isError_of_mem_relationErrors hd), fun h hd _ => h hd⟩

/-- The units that late definitions add, if `late` is what their declarations mean: those that
stand for units of the catalog are left out. -/
def addedUnits (l : Loader) (c : Catalog) (source : String) (late : List UnitEntry) :
    List UnitEntry :=
  kept (l.options c.nextFamily source) c.restored late

/-- **The definitions of a text compile on top of a catalog**, to these late entries. -/
structure Compiles (l : Loader) (c : Catalog) (source text : String) (late : List UnitEntry)
    (scales : List ScaleEntry) : Prop where
  restored : c.restore = .ok c.restored
  read : (Declarations.read (some source) text).2.hasErrors = false
  sound : Sound (l.options c.nextFamily source) c.restored
    (Declarations.read (some source) text).1 late scales
  room : c.HasRoom (c.opened (addedUnits l c source late) scales)
  related : relationErrors (c.allUnits (addedUnits l c source late)) = []

section Compile

variable {l : Loader} {c : Catalog} {source text : String} {late : List UnitEntry}
  {scales : List ScaleEntry}

theorem Compiles.lateEntries (h : Compiles l c source text late scales) :
    LateEntries c (addedUnits l c source late) scales :=
  h.sound.lateEntries

theorem extend_extended
    (h : Sound (l.options c.nextFamily source) c.restored (Declarations.read (some source) text).1
      late scales) :
    c.restored.extend text (l.options c.nextFamily source) = .ok compilation ↔
      c.HasRoom (c.opened (addedUnits l c source late) scales) ∧ compilation =
        ⟨c.lateResolved (addedUnits l c source late) scales,
          (Declarations.read (some source) text).2.pushAll
            (relationErrors (c.allUnits (addedUnits l c source late)))⟩ := by
  have hlate : LateEntries c (addedUnits l c source late) scales := h.lateEntries
  obtain ⟨hunits, hscales, -⟩ := Catalog.numbered_late hlate
  rw [extend_eq (h.elaborate _), ← Catalog.hasRoom_late hlate]
  show (if (c.lateModel (addedUnits l c source late) scales).HasRoom c.nextFamily then
    Except.ok (finished (c.lateModel (addedUnits l c source late) scales) _ c.nextFamily)
      else _) = _ ↔ _
  rw [finished, resolved, hunits, hscales]
  split_ifs with hroom
  · rw [Except.ok.injEq, and_iff_right hroom, eq_comm]
    rfl
  · exact iff_of_false nofun fun hall => hroom hall.1

/-- **A compilation on top of a catalog succeeds exactly if the definitions compile.** -/
theorem extend_restored_iff :
    (∃ m, c.restore = .ok m ∧ c.nextFamily? = some c.nextFamily ∧
        m.extend text (l.options c.nextFamily source) = .ok compilation ∧
        compilation.isSuccess = true) ↔
      ∃ late scales, Compiles l c source text late scales ∧ compilation =
        ⟨c.lateResolved (addedUnits l c source late) scales,
          (Declarations.read (some source) text).2⟩ := by
  constructor
  · rintro ⟨m, hm, -, hextend, hsuccess⟩
    obtain rfl := Catalog.restore_eq_ok hm
    obtain ⟨e, ds, helab, -, hfinished⟩ := exists_finished hextend
    have hok : compilation.diagnostics.hasErrors = false := (Bool.not_eq_true' _).mp hsuccess
    have hds : ds.hasErrors = false := by
      rw [hfinished] at hok
      exact ((hasErrors_pushAll_relationErrors ds _).mp hok).1
    obtain ⟨late, scales, hsound, rfl, rfl⟩ := elaborate_noErrors helab hds
    obtain ⟨hroom, rfl⟩ := (extend_extended hsound).mp hextend
    obtain ⟨hread, hrelated⟩ := (hasErrors_pushAll_relationErrors _ _).mp hok
    refine ⟨late, scales, ⟨hm, hread, hsound, hroom, hrelated⟩, ?_⟩
    rw [hrelated]
    rfl
  · rintro ⟨late, scales, h, rfl⟩
    refine ⟨c.restored, h.restored, h.room.nextFamily.1, ?_, ?_⟩
    · rw [extend_extended h.sound, h.related]
      exact ⟨h.room, rfl⟩
    · unfold Compilation.isSuccess
      rw [h.read]
      rfl

theorem lateResolved_nonempty_iff (c : Catalog) (us : List UnitEntry) (ss : List ScaleEntry) :
    ¬ ((c.lateResolved us ss).lateUnits = (c.lateResolved us ss).units.length ∧
        (c.lateResolved us ss).lateScales = (c.lateResolved us ss).scales.length) ↔
      us ≠ [] ∨ ss ≠ [] := by
  have hunits : (c.lateResolved us ss).units.length = c.restored.units.length + us.length := by
    rw [← length_append, ← Catalog.length_allUnits]
    exact length_mapIdx.trans length_mapIdx
  have hscales : (c.lateResolved us ss).scales.length = c.restored.scales.length + ss.length := by
    rw [← length_append, ← Catalog.length_allScales c us]
    exact length_mapIdx
  rw [hunits, hscales, not_and_or]
  show ¬ c.restored.units.length = _ ∨ ¬ c.restored.scales.length = _ ↔ _
  rw [Nat.left_eq_add, Nat.left_eq_add, length_eq_zero_iff, length_eq_zero_iff]

/-! ### From definitions to a build request -/

/-- The source of a module of late entries. -/
def generateLate (l : Loader) (c : Catalog) (module : String) (us : List UnitEntry)
    (ss : List ScaleEntry) : Except Source.GenerateError Source.Bundle :=
  Source.generate { l.config.source with moduleName := module } (c.lateResolved us ss).lateView

/-- The module of late entries in their families, with its source. -/
def lateArtifact (l : Loader) (c : Catalog) (module source : String) (us : List UnitEntry)
    (ss : List ScaleEntry) : Artifact where
  module
  source
  references := Loader.references l.config.references (c.lateResolved us ss).lateView
  units := c.lateUnits module us
  scales := c.lateScales module us ss

theorem prepare_eq_ok_stages :
    l.prepare c module source text = .ok (b, ds) ↔
      ∃ m, c.restore = .ok m ∧ c.nextFamily? = some c.nextFamily ∧ ∃ compilation,
        m.extend text (l.options c.nextFamily source) = .ok compilation ∧ compilation.isSuccess = true ∧
          ¬ (compilation.model.lateUnits = compilation.model.units.length ∧
            compilation.model.lateScales = compilation.model.scales.length) ∧
          ∃ bundle, Source.generate { l.config.source with moduleName := module }
              compilation.model.lateView = .ok bundle ∧
            b = Loader.requestOf module bundle.merged
              (Loader.references l.config.references compilation.model.lateView)
                compilation.model ∧ ds = compilation.diagnostics := by
  unfold Loader.prepare Catalog.nextFamily
  cases c.nextFamily? with
  | none =>
    simp only [bind_eq_ok_iff]
    exact iff_of_false (fun ⟨_, _, h⟩ => nomatch h) fun ⟨_, _, h, _⟩ => nomatch h
  | some next =>
    simp only [bind_eq_ok_iff, mapError_eq_ok_iff, ite_throw_eq_ok_iff, pure_eq_ok_iff,
      Bool.not_eq_true', Bool.not_eq_false, Bool.and_eq_true, decide_eq_true_eq, Prod.mk.injEq,
      Option.getD_some, true_and]

/-- **What a builder is asked for**: the entries of definitions that compile and add something,
with the source that is generated for them. -/
theorem prepare_eq_ok_iff :
    l.prepare c module source text = .ok (b, ds) ↔
      ∃ late scales bundle, Compiles l c source text late scales ∧
        (addedUnits l c source late ≠ [] ∨ scales ≠ []) ∧
        generateLate l c module (addedUnits l c source late) scales = .ok bundle ∧
        b = lateArtifact l c module bundle.merged (addedUnits l c source late) scales ∧
        ds = (Declarations.read (some source) text).2 := by
  rw [prepare_eq_ok_stages]
  constructor
  · rintro ⟨m, hm, hnext, compilation, hextend, hsuccess, hlate, bundle, hbundle, rfl, rfl⟩
    obtain ⟨late, scales, h, rfl⟩ := extend_restored_iff.mp ⟨m, hm, hnext, hextend, hsuccess⟩
    refine ⟨late, scales, bundle, h, (lateResolved_nonempty_iff ..).mp hlate, hbundle, ?_, rfl⟩
    exact Catalog.requestOf_late h.lateEntries ..
  · rintro ⟨late, scales, bundle, h, hadded, hbundle, rfl, rfl⟩
    obtain ⟨m, hm, hnext, hextend, hsuccess⟩ := extend_restored_iff.mpr ⟨late, scales, h, rfl⟩
    refine ⟨m, hm, hnext, _, hextend, hsuccess, (lateResolved_nonempty_iff ..).mpr hadded,
      bundle, hbundle, ?_, rfl⟩
    exact (Catalog.requestOf_late h.lateEntries ..).symm

end Compile

end Quantity
