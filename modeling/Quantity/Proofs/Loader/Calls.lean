import Mathlib.Data.List.Perm.Subperm
import Quantity.Proofs.Loader.Stored

/-!
# Calls of a host

A host registers modules, and loads definitions from texts and files. Each of these calls is
atomic: it fails and changes nothing, or it adds one module at the end of the catalog
(`Host.run_isAtomic`). Only a store that fails halfway leaves its traces.

A load that is called off commits nothing either, if it has to compile. A stored module is taken
without a look at the cancellation (`cancelled_commitsNothing_iff`).
-/

namespace Quantity

open Quantity.Files List

/-! ### Names of modules -/

namespace Loader

theorem moduleName_injective (l : Loader) : Function.Injective l.moduleName := by
  intro a b h
  exact (String.append_right_inj _).mp h

/-- The module of a text gets a free name: there are more candidates than modules. -/
theorem textModule_not_mem (l : Loader) (modules : List String) :
    l.textModule modules ∉ modules := by
  unfold textModule
  dsimp only
  cases hfind : ((List.range (modules.length + 1)).map fun k =>
      l.moduleName (toString (modules.length + k))).find? fun name => !modules.contains name with
  | some name =>
    have hfree := find?_some hfind
    simpa using hfree
  | none =>
    have hnodup : ((List.range (modules.length + 1)).map fun k =>
        l.moduleName (toString (modules.length + k))).Nodup := by
      refine nodup_range.map fun i j h => ?_
      have hdigits : Nat.repr (modules.length + i) = Nat.repr (modules.length + j) :=
        l.moduleName_injective h
      rw [Nat.repr_eq_ofList_toDigits, Nat.repr_eq_ofList_toDigits, String.ofList_inj] at hdigits
      have hsame := congrArg (Nat.ofDigitChars 10 · 0) hdigits
      simp only [Nat.ofDigitChars_ten_toDigits] at hsame
      omega
    have hsubset : ((List.range (modules.length + 1)).map fun k =>
        l.moduleName (toString (modules.length + k))) ⊆ modules := by
      intro name hname
      have htaken := List.find?_eq_none.mp hfind name hname
      simpa using htaken
    have hlength := (subperm_of_subset hnodup hsubset).length_le
    simp only [length_map, length_range] at hlength
    omega

/-- The module of definitions that are compiled and built. -/
def Compiled (l : Loader) (c : Catalog) (module source text : String) (m : LoadedModule) : Prop :=
  ∃ request ds a, l.prepare c module source text = .ok (request, ds) ∧
    l.builder.build request = .ok a ∧ l.builder.load a = .ok m

/-- A module is stored only if it was compiled from a file and there is a store. -/
theorem persist_eq_error_iff (l : Loader) (isFile : Bool) (d disk : Disk) (module : String)
    (a : Artifact) (cause : StoreError) :
    l.persist isFile d module a = (.error cause, disk) ↔
      isFile = true ∧ ∃ store, l.store = some store ∧
        store.write d module a = (.error cause, disk) := by
  unfold persist
  cases l.store with
  | none => simp
  | some store => cases isFile <;> simp

/-- How the publication of a prepared module ends: nothing is done, or the module is built and
loaded, and then the store fails or the module is added. The catalog is not restored for it. -/
theorem buildAndPublish_ends (l : Loader) (cancellation : Cancellation) (isFile : Bool)
    (host : Host) (module : String) (request : BuildRequest) (ds : Diagnostics) :
    (∃ e asked, (∀ cause, e ≠ .restore cause) ∧
      l.buildAndPublish cancellation isFile host module request ds =
        { fail host e with request := asked }) ∨
      cancellation = .never ∧ ∃ a m, l.builder.build request = .ok a ∧ l.builder.load a = .ok m ∧
        ∃ disk,
          ((∃ e, l.persist isFile host.disk module a = (.error e, disk) ∧
            l.buildAndPublish cancellation isFile host module request ds =
              ⟨.error (.store e), { host with disk }, none, some request⟩) ∨
            l.buildAndPublish cancellation isFile host module request ds =
              ⟨.ok (reportOn module request false ds), ⟨host.catalog.append m, disk⟩, none,
                some request⟩) := by
  unfold buildAndPublish
  by_cases hbefore : cancellation.beforeBuild = true
  · rw [if_pos hbefore]
    exact .inl ⟨.cancelled, none, by simp, rfl⟩
  rw [if_neg hbefore]
  cases hbuild : l.builder.build request with
  | error report => exact .inl ⟨_, _, by simp, rfl⟩
  | ok a =>
    dsimp only
    cases hload : l.builder.load a with
    | error report => exact .inl ⟨_, _, by simp, rfl⟩
    | ok m =>
      dsimp only
      by_cases hafter : cancellation.afterBuild = true
      · rw [if_pos hafter]
        exact .inl ⟨_, _, by simp, rfl⟩
      rw [if_neg hafter]
      have hnever : cancellation = .never := by simpa [Cancellation.afterBuild] using hafter
      refine .inr ⟨hnever, a, m, rfl, hload, ?_⟩
      cases l.persist isFile host.disk module a with
      | mk result disk =>
        cases result with
        | error e => exact ⟨disk, .inl ⟨e, rfl, rfl⟩⟩
        | ok _ => exact ⟨disk, .inr rfl⟩

/-- A load from a file fails at once, compiles the file as a new module, or takes a stored
module. -/
theorem loadFile_cases (l : Loader) (cancellation : Cancellation) (host : Host) (path : String) :
    (∃ e, (∀ cause, e ≠ .restore cause) ∧ l.loadFile cancellation host path = fail host e) ∨
      (l.fileModule path ∉ host.catalog.modules ∧ ∃ stale, l.loadFile cancellation host path =
        { l.loadSource cancellation host path (l.fileModule path) with stale }) ∨
      ∃ a, TakesStored l host path a ∧
        l.loadFile cancellation host path = l.publishStored host a := by
  by_cases hmodule : host.catalog.hasModule (l.fileModule path) = true
  · refine .inl ⟨.duplicateModule (l.fileModule path), by simp, ?_⟩
    unfold loadFile
    rw [if_pos hmodule]
  have hfree : l.fileModule path ∉ host.catalog.modules := by
    simpa [Catalog.hasModule] using hmodule
  unfold loadFile
  rw [if_neg hmodule]
  cases hstored : l.stored? host.disk path (l.fileModule path) with
  | error e => exact .inl ⟨_, by simp, rfl⟩
  | ok found =>
    cases found with
    | none => exact .inr (.inl ⟨hfree, _, rfl⟩)
    | some a =>
      dsimp only
      cases hfits : host.catalog.staleReason? l.config.references (l.fileModule path) a with
      | some reason => exact .inr (.inl ⟨hfree, some reason, rfl⟩)
      | none => exact .inr (.inr ⟨a, ⟨by simpa using hmodule, hstored, hfits⟩, rfl⟩)

end Loader

theorem TakesStored.not_mem_modules (h : TakesStored l host path a) :
    l.fileModule path ∉ host.catalog.modules := by
  simpa [Catalog.hasModule] using h.free

theorem TakesStored.module_eq (h : TakesStored l host path a) : a.module = l.fileModule path := by
  have hfits := h.fits
  unfold Catalog.staleReason? at hfits
  by_contra hne
  rw [if_pos hne] at hfits
  cases hfits

/-- A builder fails, or else it loads a module under the name that is asked for. -/
structure Builder.KeepsNames (b : Builder) : Prop where
  built : ∀ request a m, b.build request = .ok a → b.load a = .ok m → m.name = request.module
  stored : ∀ a m, b.load a = .ok m → m.name = a.module

theorem Artifact.eq_of_ifOwn {a : Artifact} (h : a.ifOwn value = .ok result) :
    a.IsOwn ∧ result = value := by
  by_cases hown : a.IsOwn
  · rw [ifOwn_of_isOwn hown] at h
    exact ⟨hown, (Except.ok.inj h).symm⟩
  · rw [ifOwn_of_not_isOwn hown] at h
    cases h

theorem Builder.keepsNames_ofDescriptors : Builder.ofDescriptors.KeepsNames where
  built request a m hbuild hload := by
    obtain ⟨-, rfl⟩ := Artifact.eq_of_ifOwn hbuild
    obtain ⟨-, rfl⟩ := Artifact.eq_of_ifOwn hload
    rfl
  stored a m hload := by
    obtain ⟨-, rfl⟩ := Artifact.eq_of_ifOwn hload
    rfl

/-! ### Calls -/

/-- A call of a host. Each load has a loader of its own. -/
inductive Call where
  | register (m : LoadedModule)
  | loadText (l : Loader) (cancellation : Cancellation) (text : String)
  | loadFile (l : Loader) (cancellation : Cancellation) (path : String)

/-- The answer to a call: the name of the module that it added, or why there is none. -/
structure Reply where
  result : Except LoadError String
  host : Host

def Outcome.reply (o : Outcome) : Reply := ⟨o.result.map (·.module), o.host⟩

namespace Call

def run (host : Host) : Call → Reply
  | register m =>
    match host.catalog.register? m with
    | some catalog => ⟨.ok m.name, { host with catalog }⟩
    | none => ⟨.error (.duplicateModule m.name), host⟩
  | loadText l cancellation text => (l.loadText cancellation host text).reply
  | loadFile l cancellation path => (l.loadFile cancellation host path).reply

/-- The builder of the call keeps names. -/
def KeepsNames : Call → Prop
  | register _ => True
  | loadText l _ _ | loadFile l _ _ => l.builder.KeepsNames

/-- The module that a call brings: the registered one, one that is built from the definitions, or
a stored one. -/
def Brings (host : Host) : Call → LoadedModule → Prop
  | register m, added => added = m
  | loadText l _ text, added =>
    l.Compiled host.catalog (l.textModule host.catalog.modules) "<definitions string>" text added
  | loadFile l _ path, added =>
    (∃ text, host.disk.read path = .ok text ∧
      l.Compiled host.catalog (l.fileModule path) path text added) ∨
    ∃ a, TakesStored l host path a ∧ l.builder.load a = .ok added

/-- The store itself may fail a call, when a compiled module is written to it, and leave a disk
behind. Only a load from a file writes to the store. -/
def Breaks (host : Host) : Call → StoreError → Disk → Prop
  | register _, _, _ | loadText .., _, _ => False
  | loadFile l _ path, cause, disk => ∃ store a, l.store = some store ∧
      store.write host.disk (l.fileModule path) a = (.error cause, disk)

end Call

/-- **A call is atomic**: it fails and changes nothing, apart from a disk on which the store itself
fails, or it adds the units, the scales and the name of a module at the end of the catalog, where
the name is new. -/
inductive Reply.IsAtomic (host : Host) (brings : LoadedModule → Prop)
    (breaks : StoreError → Disk → Prop) : Reply → Prop where
  | failed {e : LoadError} {after : Host} (catalog : after.catalog = host.catalog)
      (disk : after.disk = host.disk ∨ ∃ cause, e = .store cause ∧ breaks cause after.disk) :
      IsAtomic host brings breaks ⟨.error e, after⟩
  | added {m : LoadedModule} {after : Host} (brought : brings m)
      (fresh : m.name ∉ host.catalog.modules)
      (units : after.catalog.units = host.catalog.units ++ m.units)
      (scales : after.catalog.scales = host.catalog.scales ++ m.scales)
      (modules : after.catalog.modules = host.catalog.modules ++ [m.name]) :
      IsAtomic host brings breaks ⟨.ok m.name, after⟩

theorem Reply.IsAtomic.mono {host : Host} {r : Reply} (h : r.IsAtomic host brings breaks)
    (hbrings : ∀ m, brings m → brings' m)
    (hbreaks : ∀ cause disk, breaks cause disk → breaks' cause disk) :
    r.IsAtomic host brings' breaks' := by
  cases h with
  | failed catalog disk =>
    refine .failed catalog (disk.imp_right ?_)
    rintro ⟨cause, he, hcause⟩
    exact ⟨cause, he, hbreaks cause _ hcause⟩
  | added brought fresh units scales modules =>
    exact .added (hbrings _ brought) fresh units scales modules

section Atomic

variable {l : Loader} {host : Host} {cancellation : Cancellation} {module : String}

theorem isAtomic_fail (host : Host) (e : LoadError) :
    (Loader.fail host e).reply.IsAtomic host brings breaks :=
  .failed rfl (.inl rfl)

variable (hb : l.builder.KeepsNames)

include hb

theorem isAtomic_buildAndPublish (hfree : module ∉ host.catalog.modules)
    (hprepare : l.prepare host.catalog module source text = .ok (request, ds)) :
    (l.buildAndPublish cancellation isFile host module request ds).reply.IsAtomic host
      (l.Compiled host.catalog module source text)
      fun cause disk => ∃ a, l.persist isFile host.disk module a = (.error cause, disk) := by
  have hmodule : request.module = module := by
    obtain ⟨late, scales, bundle, -, -, -, rfl, -⟩ := prepare_eq_ok_iff.mp hprepare
    rfl
  rcases l.buildAndPublish_ends cancellation isFile host module request ds with
    ⟨e, asked, -, h⟩ | ⟨-, a, m, hbuild, hload, disk, ⟨e, hpersist, h⟩ | h⟩
  · rw [h]
    exact .failed rfl (.inl rfl)
  · rw [h]
    exact .failed rfl (.inr ⟨e, rfl, a, hpersist⟩)
  · rw [h]
    obtain rfl : m.name = module := (hb.built request a m hbuild hload).trans hmodule
    exact .added ⟨request, ds, a, hprepare, hbuild, hload⟩ hfree rfl rfl rfl

theorem isAtomic_compileAndPublish (hfree : module ∉ host.catalog.modules) :
    (l.compileAndPublish cancellation isFile host module source text).reply.IsAtomic host
      (l.Compiled host.catalog module source text)
      fun cause disk => ∃ a, l.persist isFile host.disk module a = (.error cause, disk) := by
  unfold Loader.compileAndPublish
  cases hprepare : l.prepare host.catalog module source text with
  | error e => exact isAtomic_fail host e
  | ok prepared => exact isAtomic_buildAndPublish hb hfree hprepare

theorem isAtomic_loadSource (path : String) (hfree : module ∉ host.catalog.modules) :
    (l.loadSource cancellation host path module).reply.IsAtomic host
      (fun m => ∃ text, host.disk.read path = .ok text ∧
        l.Compiled host.catalog module path text m)
      fun cause disk => ∃ a, l.persist true host.disk module a = (.error cause, disk) := by
  unfold Loader.loadSource
  cases hread : host.disk.read path with
  | error e => exact isAtomic_fail host _
  | ok text =>
    exact (isAtomic_compileAndPublish hb hfree).mono (fun m hm => ⟨text, rfl, hm⟩) fun _ _ h => h

theorem isAtomic_publishStored (hfree : a.module ∉ host.catalog.modules) :
    (l.publishStored host a).reply.IsAtomic host (l.builder.load a = .ok ·) breaks := by
  unfold Loader.publishStored
  cases hload : l.builder.load a with
  | error report => exact isAtomic_fail host _
  | ok m =>
    have hname := hb.stored a m hload
    rw [← hname] at hfree ⊢
    exact .added rfl hfree rfl rfl rfl

theorem isAtomic_loadText (text : String) :
    (Call.run host (.loadText l cancellation text)).IsAtomic host
      (Call.Brings host (.loadText l cancellation text))
      (Call.Breaks host (.loadText l cancellation text)) := by
  refine (isAtomic_compileAndPublish hb (l.textModule_not_mem _)).mono (fun m hm => hm) ?_
  -- the module of a text is not stored
  rintro cause disk ⟨a, h⟩
  obtain ⟨hfile, -⟩ := (l.persist_eq_error_iff ..).mp h
  cases hfile

theorem isAtomic_loadFile (path : String) :
    (Call.run host (.loadFile l cancellation path)).IsAtomic host
      (Call.Brings host (.loadFile l cancellation path))
      (Call.Breaks host (.loadFile l cancellation path)) := by
  show (l.loadFile cancellation host path).reply.IsAtomic host _ _
  rcases l.loadFile_cases cancellation host path with
    ⟨e, -, h⟩ | ⟨hfree, stale, h⟩ | ⟨a, htaken, h⟩
  · rw [h]
    exact isAtomic_fail host e
  · rw [h]
    refine (isAtomic_loadSource hb path hfree).mono (fun m hm => .inl hm) ?_
    rintro cause disk ⟨a, h⟩
    obtain ⟨-, store, hstore, hwrite⟩ := (l.persist_eq_error_iff ..).mp h
    exact ⟨store, a, hstore, hwrite⟩
  · rw [h]
    have hfree := htaken.not_mem_modules
    rw [← htaken.module_eq] at hfree
    exact (isAtomic_publishStored hb hfree).mono (fun m hm => .inr ⟨a, htaken, hm⟩) fun _ _ h => h

omit hb

theorem Call.isAtomic {call : Call} (h : call.KeepsNames) (host : Host) :
    (call.run host).IsAtomic host (call.Brings host) (call.Breaks host) := by
  cases call with
  | register m =>
    by_cases htaken : host.catalog.hasModule m.name = true
    · simp only [run, Catalog.register?, if_pos htaken]
      exact .failed rfl (.inl rfl)
    · simp only [run, Catalog.register?, if_neg htaken]
      exact .added rfl (by simpa [Catalog.hasModule] using htaken) rfl rfl rfl
  | loadText l cancellation text => exact isAtomic_loadText h text
  | loadFile l cancellation path => exact isAtomic_loadFile h path

end Atomic

/-! ### Runs -/

/-- What happens to a host: calls, and changes of its files from outside. -/
inductive Event where
  | call (call : Call)
  | edit (disk : Disk)

def Event.run (host : Host) : Event → Host
  | call c => (c.run host).host
  | edit disk => { host with disk }

def Host.run (host : Host) (events : List Event) : Host := events.foldl Event.run host

/-- A catalog to which modules may have been added. -/
structure Catalog.Extends (c c' : Catalog) : Prop where
  units : c.units <+: c'.units
  scales : c.scales <+: c'.scales
  modules : c.modules <+: c'.modules

theorem Catalog.Extends.refl (c : Catalog) : c.Extends c :=
  ⟨prefix_refl _, prefix_refl _, prefix_refl _⟩

theorem Catalog.Extends.trans {c c' c'' : Catalog} (h : c.Extends c') (h' : c'.Extends c'') :
    c.Extends c'' :=
  ⟨h.units.trans h'.units, h.scales.trans h'.scales, h.modules.trans h'.modules⟩

namespace Reply.IsAtomic

variable {host : Host} {brings : LoadedModule → Prop} {breaks : StoreError → Disk → Prop}
  {r : Reply}

theorem extends_catalog (h : r.IsAtomic host brings breaks) : host.catalog.Extends r.host.catalog := by
  cases h with
  | failed catalog disk =>
    rw [catalog]
    exact .refl _
  | added brought fresh units scales modules =>
    exact ⟨⟨_, units.symm⟩, ⟨_, scales.symm⟩, ⟨_, modules.symm⟩⟩

theorem nodup_modules (h : r.IsAtomic host brings breaks) (hnodup : host.catalog.modules.Nodup) :
    r.host.catalog.modules.Nodup := by
  cases h with
  | failed catalog disk => simpa only [catalog] using hnodup
  | added brought fresh units scales modules =>
    simp only [modules]
    refine nodup_append'.mpr ⟨hnodup, nodup_singleton _, ?_⟩
    simpa using fresh

end Reply.IsAtomic

/-- What holds at first and is kept by each event holds after a run. -/
theorem Host.run_induction {P : Host → Prop} {events : List Event} {host : Host} (h : P host)
    (step : ∀ event ∈ events, ∀ host, P host → P (event.run host)) : P (host.run events) := by
  induction events generalizing host with
  | nil => exact h
  | cons event events ih =>
    have hfirst := step event mem_cons_self host h
    exact ih hfirst fun e he => step e (mem_cons_of_mem _ he)

/-- **Calls are atomic and only ever add to the catalog**, in every run: each call in the run is
atomic where it is made, the entries and modules of before stay in front, and the names of modules
stay distinct. -/
theorem Host.run_isAtomic {events : List Event}
    (hnames : ∀ call, .call call ∈ events → call.KeepsNames) (host : Host) :
    (∀ before call after, events = before ++ .call call :: after →
        (call.run (host.run before)).IsAtomic (host.run before) (call.Brings (host.run before))
          (call.Breaks (host.run before))) ∧
      host.catalog.Extends (host.run events).catalog ∧
      (host.catalog.modules.Nodup → (host.run events).catalog.modules.Nodup) := by
  refine ⟨?_, ?_, fun hnodup => ?_⟩
  · rintro before call after rfl
    exact call.isAtomic (hnames call (by simp)) _
  · refine run_induction (P := fun h => host.catalog.Extends h.catalog) (.refl _) ?_
    intro event hevent h hextends
    cases event with
    | edit disk => exact hextends
    | call call => exact hextends.trans (call.isAtomic (hnames call hevent) h).extends_catalog
  · refine run_induction (P := fun h => h.catalog.modules.Nodup) hnodup ?_
    intro event hevent h hnodup
    cases event with
    | edit disk => exact hnodup
    | call call => exact (call.isAtomic (hnames call hevent) h).nodup_modules hnodup

/-- A store to which nothing can be written. -/
def fullStore : Store where
  isFresh _ _ _ := .ok false
  read _ _ := .error .manifest
  write disk module _ := (.error (.system module (.other "disk full")), disk)

/-- A host with a file of inches. -/
def hostOfInches : Host where
  disk := { files := ⟨[("inches.units", ⟨"unit<decimal> Inch \"in\" = 0.0254 * Meter;", 0⟩)]⟩ }

/-- A host loads meters, feet and yards, where the definition of yards breaks off. Then it asks for
the module of the feet once more, and for inches, which should be stored. -/
def feetAndYards : List Call :=
  [.loadText {} .never "unit<decimal> Meter \"m\" = <Length>;",
    .loadText {} .never "unit<decimal> Foot \"ft\" = 0.3048 * Meter;",
    .loadText {} .never "unit<decimal> Yard \"yd\" = 3 * ",
    .register ⟨"late_1", [], []⟩,
    .loadFile { store := some fullStore } .never "inches.units"]

/-- The first two calls add a module with a unit each, and the others are refused. -/
theorem Host.run_isAtomic_feetAndYards :
    (∀ call, .call call ∈ feetAndYards.map Event.call → call.KeepsNames) ∧
      (feetAndYards.mapIdx fun i call => (call.run (hostOfInches.run
        ((feetAndYards.map Event.call).take i))).result.toOption) =
          [some "late_0", some "late_1", none, none, none] ∧
      ((hostOfInches.run (feetAndYards.map Event.call)).catalog.units.map fun u =>
        (u.module, u.name)) = [("late_0", "Meter"), ("late_1", "Foot")] ∧
      (∀ before call after, feetAndYards.map Event.call = before ++ .call call :: after →
        (call.run (hostOfInches.run before)).IsAtomic (hostOfInches.run before)
          (call.Brings (hostOfInches.run before)) (call.Breaks (hostOfInches.run before))) ∧
      (hostOfInches.run (feetAndYards.map Event.call)).catalog.modules.Nodup := by
  have hnames : ∀ call, .call call ∈ feetAndYards.map Event.call → call.KeepsNames := by
    intro call hcall
    simp only [feetAndYards, map_cons, map_nil, mem_cons, Event.call.injEq, not_mem_nil,
      or_false] at hcall
    rcases hcall with rfl | rfl | rfl | rfl | rfl
    · exact Builder.keepsNames_ofDescriptors
    · exact Builder.keepsNames_ofDescriptors
    · exact Builder.keepsNames_ofDescriptors
    · trivial
    · exact Builder.keepsNames_ofDescriptors
  obtain ⟨hatomic, -, hnodup⟩ := run_isAtomic hnames hostOfInches
  exact ⟨hnames, by decide +kernel, by decide +kernel, hatomic, hnodup nodup_nil⟩

/-! ### Cancellation -/

def Outcome.CommitsNothing (o : Outcome) (host : Host) : Prop :=
  (∃ e, o.result = .error e) ∧ o.host = host

section Cancelled

variable {l : Loader} {host : Host} {cancellation : Cancellation}

theorem commitsNothing_fail (host : Host) (e : LoadError) :
    (Loader.fail host e).CommitsNothing host :=
  ⟨⟨e, rfl⟩, rfl⟩

/-- A load that is called off, at whatever time, does not get beyond the built module. -/
theorem commitsNothing_buildAndPublish (h : cancellation ≠ .never) (isFile : Bool)
    (module : String) (request : BuildRequest) (ds : Diagnostics) :
    (l.buildAndPublish cancellation isFile host module request ds).CommitsNothing host := by
  rcases l.buildAndPublish_ends cancellation isFile host module request ds with
    ⟨e, asked, -, heq⟩ | ⟨hnever, -⟩
  · rw [heq]
    exact ⟨⟨e, rfl⟩, rfl⟩
  · exact absurd hnever h

theorem commitsNothing_compileAndPublish (h : cancellation ≠ .never) (isFile : Bool)
    (module source text : String) :
    (l.compileAndPublish cancellation isFile host module source text).CommitsNothing host := by
  unfold Loader.compileAndPublish
  cases l.prepare host.catalog module source text with
  | error e => exact commitsNothing_fail host e
  | ok prepared => exact commitsNothing_buildAndPublish h isFile module _ _

theorem commitsNothing_loadSource (h : cancellation ≠ .never) (path module : String) :
    (l.loadSource cancellation host path module).CommitsNothing host := by
  unfold Loader.loadSource
  cases host.disk.read path with
  | error e => exact commitsNothing_fail host _
  | ok text => exact commitsNothing_compileAndPublish h true module path text

end Cancelled

/-- **A load that is called off before it starts commits nothing, unless it takes a stored
module.** A text is always compiled, and a file is as long as no stored module is taken that the
builder can load: that one is published in spite of the cancellation. -/
theorem cancelled_commitsNothing_iff (l : Loader) (host : Host) (path text : String) :
    (l.loadText .beforehand host text).CommitsNothing host ∧
      ((l.loadFile .beforehand host path).CommitsNothing host ↔
        ¬ ∃ a m, TakesStored l host path a ∧ l.builder.load a = .ok m) := by
  have hcancelled : Cancellation.beforehand ≠ .never := by decide
  refine ⟨commitsNothing_compileAndPublish hcancelled .., ?_, fun hnone => ?_⟩
  · rintro ⟨⟨e, herror⟩, -⟩ ⟨a, m, htaken, hload⟩
    rw [htaken.loadFile] at herror
    unfold Loader.publishStored at herror
    rw [hload] at herror
    cases herror
  · rcases l.loadFile_cases .beforehand host path with ⟨e, -, h⟩ | ⟨-, stale, h⟩ | ⟨a, htaken, h⟩
    · rw [h]
      exact commitsNothing_fail host e
    · rw [h]
      exact commitsNothing_loadSource hcancelled ..
    · rw [h]
      unfold Loader.publishStored
      cases hload : l.builder.load a with
      | error report => exact commitsNothing_fail host _
      | ok m => exact absurd ⟨a, m, htaken, hload⟩ hnone

def storedNothing : Artifact where
  module := "late_imperial"
  source := ""
  units := []
  scales := []

/-- A host with definitions of nothing, and their module in the store. -/
def hostOfNothing : Host where
  disk :=
    { files := ⟨[("imperial.units", ⟨"", 0⟩), ("store/late_imperial.json", ⟨storedNothing.write, 0⟩)]⟩
      directories := ["store"] }

/-- A stored module is published though the load was called off beforehand. -/
theorem cancelled_commitsNothing_iff_storedNothing :
    (storing.loadFile .beforehand hostOfNothing "imperial.units").host.catalog.modules =
        ["late_imperial"] ∧
      ¬ (storing.loadFile .beforehand hostOfNothing "imperial.units").CommitsNothing
        hostOfNothing := by
  have htaken : TakesStored storing hostOfNothing "imperial.units" storedNothing :=
    ⟨by decide +kernel, by decide +kernel, by decide +kernel⟩
  have hload : storing.builder.load storedNothing = .ok ⟨"late_imperial", [], []⟩ := by
    decide +kernel
  refine ⟨by decide +kernel, fun h => ?_⟩
  have hnone := ((cancelled_commitsNothing_iff storing hostOfNothing "imperial.units" "").2).mp h
  exact hnone ⟨storedNothing, _, htaken, hload⟩

end Quantity
