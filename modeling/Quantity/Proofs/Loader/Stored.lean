import Quantity.Proofs.Loader.Compiles

/-!
# Stored modules

A stored module is loaded in place of its definitions, unless the catalog makes it stale. What is
stale is decided by families and by the names of modules alone. `loadFile_agrees_iff` says exactly
when the stored module leaves the catalog that compiling the definitions would leave: the
definitions still have to compile, to just the stored entries in the right families. They do not
where another module has taken one of their symbols in between.
-/

namespace Quantity

open Model Elaborate List

/-! ### Publishing -/

/-- All entries of an artifact belong to its module. -/
def Artifact.IsOwn (a : Artifact) : Prop :=
  (∀ u ∈ a.units, u.module = a.module) ∧ ∀ s ∈ a.scales, s.module = a.module

theorem Artifact.hasErrors_foreignEntries (a : Artifact) :
    a.foreignEntries.hasErrors = false ↔ a.IsOwn := by
  unfold foreignEntries
  rw [Diagnostics.hasErrors_pushAll]
  simp [IsOwn, Diagnostics.hasErrors, Diagnostic.isError, Diagnostic.error]

theorem Artifact.ifOwn_of_isOwn {a : Artifact} (h : a.IsOwn) (value : α) :
    a.ifOwn value = .ok value := by
  unfold ifOwn
  dsimp only
  rw [a.hasErrors_foreignEntries.mpr h]
  rfl

theorem Artifact.ifOwn_of_not_isOwn {a : Artifact} (h : ¬ a.IsOwn) (value : α) :
    a.ifOwn value = .error a.foreignEntries := by
  have hreport : a.foreignEntries.hasErrors = true := by
    rw [← Bool.not_eq_false, a.hasErrors_foreignEntries]
    exact h
  unfold ifOwn
  rw [if_pos hreport]

theorem isOwn_lateArtifact (h : LateEntries c us ss) (l : Loader) (module source : String) :
    (lateArtifact l c module source us ss).IsOwn := by
  constructor
  · intro u hu
    obtain ⟨p, -, rfl⟩ := mem_map.mp hu
    rfl
  · intro s hs
    obtain ⟨p, hp, hdescribe⟩ := mem_filterMap.mp hs
    obtain ⟨i, e, -, -, hd⟩ := Catalog.describe?_late h module hp
    rw [hd] at hdescribe
    cases hdescribe
    rfl

/-- **The definitions of a text lead to a module**: they compile and add something, and its
source can be generated and stored. -/
structure Publishes (l : Loader) (host : Host) (module source text : String)
    (late : List UnitEntry) (scales : List ScaleEntry) : Prop
    extends Compiles l host.catalog source text late scales where
  added : addedUnits l host.catalog source late ≠ [] ∨ scales ≠ []
  stored : ∃ bundle,
    generateLate l host.catalog module (addedUnits l host.catalog source late) scales = .ok bundle ∧
      (l.persist true host.disk module (lateArtifact l host.catalog module bundle.merged
        (addedUnits l host.catalog source late) scales)).1 = .ok ()

section Publish

variable {l : Loader} (hl : l.builder = .ofDescriptors) (host : Host)
include hl

/-- A stored module is published exactly if its entries are its own. -/
theorem publishStored_cases (a : Artifact) :
    a.IsOwn ∧ (∃ r, (l.publishStored host a).result = .ok r) ∧
        (l.publishStored host a).host.catalog =
          host.catalog.append ⟨a.module, a.units, a.scales⟩ ∨
      ¬ a.IsOwn ∧ ∃ e, (l.publishStored host a).result = .error e := by
  have hload : l.builder.load a = a.ifOwn ⟨a.module, a.units, a.scales⟩ := by
    rw [hl]
    rfl
  unfold Loader.publishStored
  rw [hload]
  by_cases hown : a.IsOwn
  · rw [Artifact.ifOwn_of_isOwn hown]
    exact .inl ⟨hown, ⟨_, rfl⟩, rfl⟩
  · rw [Artifact.ifOwn_of_not_isOwn hown]
    exact .inr ⟨hown, _, rfl⟩

/-- A prepared module of own entries is published exactly if it can be stored. -/
theorem buildAndPublish_cases (hown : a.IsOwn) (module : String) (ds : Diagnostics) :
    (l.persist true host.disk module a).1 = .ok () ∧
        (∃ r, (l.buildAndPublish .never true host module a ds).result = .ok r) ∧
        (l.buildAndPublish .never true host module a ds).host.catalog =
          host.catalog.append ⟨a.module, a.units, a.scales⟩ ∨
      (l.persist true host.disk module a).1 ≠ .ok () ∧
        ∃ e, (l.buildAndPublish .never true host module a ds).result = .error e := by
  have hbuild : l.builder.build a = .ok a := by
    rw [hl]
    exact Artifact.ifOwn_of_isOwn hown a
  have hload : l.builder.load a = .ok ⟨a.module, a.units, a.scales⟩ := by
    rw [hl]
    exact Artifact.ifOwn_of_isOwn hown _
  unfold Loader.buildAndPublish
  rw [hbuild]
  dsimp only [Cancellation.beforeBuild]
  rw [hload]
  cases hp : l.persist true host.disk module a with
  | mk result disk =>
    cases result with
    | error e => exact .inr ⟨nofun, _, rfl⟩
    | ok _ => exact .inl ⟨rfl, ⟨_, rfl⟩, rfl⟩

variable {host} {module source text : String} {late : List UnitEntry} {scales : List ScaleEntry}

/-- Definitions that lead to a module are published: the late entries are added to the catalog. -/
theorem Publishes.compileAndPublish (h : Publishes l host module source text late scales) :
    (∃ r, (l.compileAndPublish .never true host module source text).result = .ok r) ∧
      (l.compileAndPublish .never true host module source text).host.catalog =
        host.catalog.append ⟨module,
          host.catalog.lateUnits module (addedUnits l host.catalog source late),
          host.catalog.lateScales module (addedUnits l host.catalog source late) scales⟩ := by
  obtain ⟨bundle, hbundle, hstored⟩ := h.stored
  have hprepare := prepare_eq_ok_iff.mpr
    ⟨late, scales, bundle, h.toCompiles, h.added, hbundle, rfl, rfl⟩
  have hown := isOwn_lateArtifact h.lateEntries l module bundle.merged
  unfold Loader.compileAndPublish
  rw [hprepare]
  rcases buildAndPublish_cases hl host hown module _ with ⟨-, hok, hcatalog⟩ | ⟨hpersist, -⟩
  · exact ⟨hok, hcatalog⟩
  · exact absurd hstored hpersist

theorem exists_publishes
    (h : (l.compileAndPublish .never true host module source text).result = .ok r) :
    ∃ late scales, Publishes l host module source text late scales := by
  unfold Loader.compileAndPublish at h
  cases hprepare : l.prepare host.catalog module source text with
  | error e =>
    rw [hprepare] at h
    cases h
  | ok result =>
    obtain ⟨b, ds⟩ := result
    rw [hprepare] at h
    obtain ⟨late, scales, bundle, hc, hadded, hbundle, rfl, -⟩ := prepare_eq_ok_iff.mp hprepare
    have hown := isOwn_lateArtifact hc.lateEntries l module bundle.merged
    rcases buildAndPublish_cases hl host hown module ds with ⟨hpersist, -⟩ | ⟨-, e, herror⟩
    · exact ⟨late, scales, hc, hadded, bundle, hbundle, hpersist⟩
    · cases h.symm.trans herror

end Publish

/-! ### Stored entries -/

/-- Entries beside numbered entries are compared with them without their numbers. -/
theorem forall₂_iff_of_numbered {α β γ ν : Type} {Q : α × ν → β → Prop} {R : γ → β → Prop}
    {S : α → γ → Prop} {ps : List (α × ν)} {xs : List α} {ys : List β} (hxs : ps.map (·.1) = xs)
    (hq : List.Forall₂ Q ps ys) (h : ∀ p y, Q p y → ∀ z, R z y ↔ S p.1 z) (zs : List γ) :
    List.Forall₂ R zs ys ↔ List.Forall₂ S xs zs := by
  subst hxs
  induction hq generalizing zs with
  | nil => rw [map_nil, forall₂_nil_right_iff, forall₂_nil_left_iff]
  | @cons p y ps ys hpy _ ih =>
    cases zs with
    | nil => exact iff_of_false nofun nofun
    | cons z zs => rw [map_cons, forall₂_cons, forall₂_cons, h p y hpy z, ih]

theorem UnitDescriptor.same_comm {u v : UnitDescriptor} : u.Same v ↔ v.Same u :=
  ⟨fun h => (congrArg (renumber fun _ => u.family) h).symm,
    fun h => (congrArg (renumber fun _ => v.family) h).symm⟩

theorem ScaleDescriptor.same_comm {s t : ScaleDescriptor} : s.Same t ↔ t.Same s :=
  ⟨fun h => (congrArg (renumber fun _ => s.family) h).symm,
    fun h => (congrArg (renumber fun _ => t.family) h).symm⟩

theorem UnitEntry.describe?_inFamily_renumber (e : UnitEntry) (module : String) (f g : FamilyId) :
    (e.inFamily g).describe? module =
      ((e.inFamily f).describe? module).map (·.renumber fun _ => g) := by
  unfold describe? inFamily
  split_ifs <;> rfl

theorem ScaleEntry.describe?_inFamily_renumber (s : ScaleEntry) (m : Model) (module : String)
    (f g : FamilyId) :
    (s.inFamily g).describe? m module =
      ((s.inFamily f).describe? m module).map (·.renumber fun _ => g) := by
  unfold describe? inFamily
  split_ifs
  · cases s.unit.bind (m.units[·]?) <;> rfl
  · rfl

/-- A unit is the same as one that describes an entry if it describes the entry too. -/
theorem UnitEntry.same_iff_describe? {e : UnitEntry} (h : (e.inFamily f).describe? module = some v)
    (u : UnitDescriptor) : u.Same v ↔ (e.inFamily u.family).describe? module = some u := by
  rw [describe?_inFamily_renumber e module f, h, Option.map_some, Option.some.injEq]
  exact UnitDescriptor.same_comm

/-- A scale is the same as one that describes an entry if it describes the entry too. -/
theorem ScaleEntry.same_iff_describe? {e : ScaleEntry}
    (h : (e.inFamily f).describe? m module = some t) (s : ScaleDescriptor) :
    s.Same t ↔ (e.inFamily s.family).describe? m module = some s := by
  rw [describe?_inFamily_renumber e m module f, h, Option.map_some, Option.some.injEq]
  exact ScaleDescriptor.same_comm

/-- **A stored module has the late entries**, in whatever families. -/
structure Describes (a : Artifact) (c : Catalog) (name : String) (us : List UnitEntry)
    (ss : List ScaleEntry) : Prop where
  module : a.module = name
  units : List.Forall₂ (fun e u => (e.inFamily u.family).describe? name = some u) us a.units
  scales : List.Forall₂
    (fun e s => (e.inFamily s.family).describe? (c.lateModel us ss) name = some s) ss a.scales

section Stored

variable {c : Catalog} {us : List UnitEntry} {ss : List ScaleEntry} {a : Artifact} {name : String}

/-- A stored module has the late entries exactly if it has those of the compiled module. -/
theorem sameEntries_iff_describes (h : LateEntries c us ss) :
    (LoadedModule.mk a.module a.units a.scales).SameEntries
        ⟨name, c.lateUnits name us, c.lateScales name us ss⟩ ↔ Describes a c name us ss := by
  have hlate : List.Forall₂ (fun p v => (p.1.inFamily p.2).describe? name = some v)
      (c.unitsNumbered us) (c.lateUnits name us) := by
    refine forall₂_map_right_iff.mpr (forall₂_same.mpr fun p hp => ?_)
    have hmem : p.1 ∈ us := Catalog.map_fst_unitsNumbered c us ▸ mem_map_of_mem hp
    exact UnitEntry.describe?_inFamily (h.units p.1 hmem).1 name p.2
  have hunits : List.Forall₂ UnitDescriptor.Same a.units (c.lateUnits name us) ↔
      List.Forall₂ (fun e u => (e.inFamily u.family).describe? name = some u) us a.units :=
    forall₂_iff_of_numbered (Catalog.map_fst_unitsNumbered c us) hlate
      (fun _ _ => UnitEntry.same_iff_describe?) a.units
  have hscales : List.Forall₂ ScaleDescriptor.Same a.scales (c.lateScales name us ss) ↔
      List.Forall₂ (fun e s => (e.inFamily s.family).describe? (c.lateModel us ss) name = some s) ss
        a.scales :=
    forall₂_iff_of_numbered (Catalog.map_fst_scalesNumbered c us ss)
      (Catalog.forall₂_lateScales h name) (fun _ _ => ScaleEntry.same_iff_describe?) a.scales
  constructor
  · rintro ⟨hname, hu, hs⟩
    exact ⟨hname, hunits.mp hu, hscales.mp hs⟩
  · rintro ⟨hname, hu, hs⟩
    exact ⟨hname, hunits.mpr hu, hscales.mpr hs⟩

theorem UnitEntry.module_of_describe? {e : UnitEntry} (h : e.describe? name = some u) :
    u.module = name := by
  unfold describe? at h
  split_ifs at h
  obtain ⟨f, -, rfl⟩ := Option.map_eq_some_iff.mp h
  rfl

theorem ScaleEntry.module_of_describe? {e : ScaleEntry} (h : e.describe? m name = some s) :
    s.module = name := by
  unfold describe? at h
  split_ifs at h
  obtain ⟨unit, -, h⟩ := Option.bind_eq_some_iff.mp h
  obtain ⟨f, -, h⟩ := Option.bind_eq_some_iff.mp h
  cases h
  rfl

theorem Describes.isOwn (h : Describes a c name us ss) : a.IsOwn := by
  have hunits := h.units.flip.imp fun u e he =>
    (⟨UnitEntry.module_of_describe? he, trivial⟩ : u.module = name ∧ True)
  have hscales := h.scales.flip.imp fun s e he =>
    (⟨ScaleEntry.module_of_describe? he, trivial⟩ : s.module = name ∧ True)
  rw [← h.module] at hunits hscales
  exact ⟨((forall₂_and_left _ _).mp hunits).1, ((forall₂_and_left _ _).mp hscales).1⟩

/-- **A stored module leaves the catalog that compiling leaves**, up to the numbers of new
families, exactly if it has the late entries in the families they belong to. -/
theorem agreeAfter_late_iff (h : LateEntries c us ss) (hroom : c.HasRoom (c.opened us ss)) :
    c.AgreeAfter (c.append ⟨a.module, a.units, a.scales⟩)
        (c.append ⟨name, c.lateUnits name us, c.lateScales name us ss⟩) ↔
      Describes a c name us ss ∧ c.FamiliesFit a.units a.scales := by
  rw [Catalog.agreeAfter_append_iff (Catalog.familiesFit_late h name hroom),
    sameEntries_iff_describes h]

end Stored

/-! ### Stored modules in place of definitions -/

/-- The stored module `a` of a definitions file is taken: it is fresh, and nothing in the catalog
makes it stale. -/
structure TakesStored (l : Loader) (host : Host) (path : String) (a : Artifact) : Prop where
  free : host.catalog.hasModule (l.fileModule path) = false
  fresh : l.stored? host.disk path (l.fileModule path) = .ok (some a)
  fits : host.catalog.staleReason? l.config.references (l.fileModule path) a = none

/-- Both loads succeed, and leave the same catalog up to the numbers of families that are new
after `c`. -/
structure SameLoad (c : Catalog) (x y : Outcome) : Prop where
  left : ∃ r, x.result = .ok r
  right : ∃ r, y.result = .ok r
  catalog : c.AgreeAfter x.host.catalog y.host.catalog

theorem TakesStored.loadFile (h : TakesStored l host path a) (cancellation : Cancellation) :
    l.loadFile cancellation host path = l.publishStored host a := by
  unfold Loader.loadFile
  dsimp only
  rw [h.free, h.fresh]
  dsimp only
  rw [h.fits]
  rfl

/-- **A stored module that is taken does the work of its definitions exactly if these still lead
to its entries, in its families.** When the module is taken only families are looked at, so all
the rest may have changed with the catalog. -/
theorem loadFile_agrees_iff {l : Loader} (hl : l.builder = .ofDescriptors) (host : Host)
    (a : Artifact) (cancellation : Cancellation) (path text : String) :
    TakesStored l host path a ∧
        SameLoad host.catalog (l.loadFile cancellation host path)
          (l.compileAndPublish .never true host (l.fileModule path) path text) ↔
      TakesStored l host path a ∧ ∃ late scales,
        Publishes l host (l.fileModule path) path text late scales ∧
        Describes a host.catalog (l.fileModule path) (addedUnits l host.catalog path late) scales ∧
        host.catalog.FamiliesFit a.units a.scales := by
  refine and_congr_right fun htaken => ?_
  rw [htaken.loadFile]
  constructor
  · rintro ⟨⟨r, hstored⟩, ⟨r', hcompiled⟩, hagree⟩
    obtain ⟨late, scales, hpublishes⟩ := exists_publishes hl hcompiled
    rcases publishStored_cases hl host a with ⟨-, -, hcatalog⟩ | ⟨-, e, herror⟩
    · rw [hcatalog, (hpublishes.compileAndPublish hl).2,
        agreeAfter_late_iff hpublishes.lateEntries hpublishes.room] at hagree
      exact ⟨late, scales, hpublishes, hagree⟩
    · cases hstored.symm.trans herror
  · rintro ⟨late, scales, hpublishes, hdescribes, hfit⟩
    obtain ⟨hok, hcatalog⟩ := hpublishes.compileAndPublish hl
    rcases publishStored_cases hl host a with ⟨-, hstored, hcatalog'⟩ | ⟨hown, -⟩
    · refine ⟨hstored, hok, ?_⟩
      rw [hcatalog, hcatalog', agreeAfter_late_iff hpublishes.lateEntries hpublishes.room]
      exact ⟨hdescribes, hfit⟩
    · exact absurd hdescribes.isOwn hown

/-- A unit of length in the first family. -/
def lengthUnit (module name tag : String) (factor : Float) : UnitDescriptor where
  name
  module
  kind := .double
  dimension := { length := 1 }
  factor := .double factor
  format := ""
  tags := [tag]
  family := 0

/-- Meters, and fathoms that go by the symbol of feet. -/
def fathoms : Catalog where
  units := [lengthUnit "si" "Meter" "m" 1, lengthUnit "late_1" "Fathom" "ft" 1.8288]
  modules := ["si", "late_1"]

/-- Feet, stored before there were fathoms. -/
def storedFeet : Artifact where
  module := "late_imperial"
  source := ""
  references := ["si"]
  units := [lengthUnit "late_imperial" "Foot" "ft" 0.3048]
  scales := []

def feet : String := "unit Foot \"ft\" = 0.3048 * Meter;"

/-- A loader that keeps modules in a directory. -/
def storing : Loader := { store := some (.ofDirectory ⟨"store"⟩) }

/-- The symbol of stored feet has gone to fathoms. That does not make them stale, but their
definitions do not compile. -/
theorem loadFile_agrees_iff_fathoms :
    fathoms.staleReason? [] "late_imperial" storedFeet = none ∧
      ∀ disk, ¬ (TakesStored storing ⟨fathoms, disk⟩ "imperial.units" storedFeet ∧
        SameLoad fathoms (storing.loadFile .never ⟨fathoms, disk⟩ "imperial.units")
          (storing.compileAndPublish .never true ⟨fathoms, disk⟩
            (storing.fileModule "imperial.units") "imperial.units" feet)) := by
  refine ⟨by decide, fun disk h => ?_⟩
  obtain ⟨-, late, scales, hpublishes, -⟩ :=
    (loadFile_agrees_iff rfl ⟨fathoms, disk⟩ storedFeet ..).mp h
  have hread : (Declarations.read (some "imperial.units") feet).1.units.map
      (fun d => (d.name, d.tags)) = [("Foot", ["ft"])] := by decide +kernel
  have hfoot : ("Foot", ["ft"]) ∈ (Declarations.read (some "imperial.units") feet).1.units.map
      fun d => (d.name, d.tags) := hread ▸ mem_singleton_self _
  obtain ⟨d, hd, heq⟩ := mem_map.mp hfoot
  obtain ⟨hname, htags⟩ := Prod.mk.inj heq
  have hfathom : fathoms.restored.findTag? "ft" = some 1 := by decide
  have hnew : fathoms.restored.findUnit? "Foot" = none := by decide
  have htaken := (hpublishes.sound.admitted.admits d hd).tags "ft" (htags ▸ mem_singleton_self _)
    1 hfathom
  rw [hname, hnew] at htaken
  cases htaken

end Quantity
