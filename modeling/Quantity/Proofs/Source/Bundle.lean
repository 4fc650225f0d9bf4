import Quantity.Proofs.Loader.Compiles
import Quantity.Proofs.Text.Dictionary

/-!
# The files of a bundle

A bundle is put together from parts, one for each entry of a view and one for each fixed file.
`generate_eq_ok_iff` says when that succeeds and what comes out: each part is worked out on its own,
no two parts share a file, and the root file comes last.
-/

namespace Quantity.Source

open List

open Quantity.Text (Dictionary)

/-! ### Parts -/

/-- A module next to the root file. -/
structure Part where
  name : String
  content : Lines

def Part.file (p : Part) : String × String := (fileName p.name, text p.content)

theorem fileName_inj : fileName a = fileName b ↔ a = b :=
  String.append_left_inj _

theorem rootName_eq : rootName = fileName "mod" := by decide +kernel

/-- **Parts are added to files**, none of them in place of another. -/
structure Added (files : Files) (parts : List Part) (files' : Files) : Prop where
  distinct : (parts.map (·.name)).Nodup
  unused : ∀ p ∈ parts, fileName p.name ∉ files.names
  eq : files' = files.insertAll (parts.map Part.file)

variable {files files' : Files} {c : Config} {v : View} {b : Bundle}

theorem addFile_eq_ok_iff :
    addFile files name content = .ok files' ↔
      fileName name ∉ files.names ∧ files' = files.insert (fileName name) (text content) := by
  unfold addFile
  by_cases hused : fileName name ∈ files.names
  · rw [if_pos (Dictionary.contains_iff.mpr hused)]
    exact iff_of_false nofun fun h => h.1 hused
  · rw [if_neg (mt Dictionary.contains_iff.mp hused), Except.ok.injEq, eq_comm,
      and_iff_right hused]

theorem added_nil : Added files [] files' ↔ files' = files :=
  ⟨fun h => h.eq, fun h => ⟨nodup_nil, nofun, h⟩⟩

theorem added_cons :
    Added files (p :: ps) files' ↔
      ∃ next, addFile files p.name p.content = .ok next ∧ Added next ps files' := by
  simp only [addFile_eq_ok_iff]
  constructor
  · rintro ⟨hdistinct, hunused, heq⟩
    obtain ⟨hfirst, hdistinct⟩ := nodup_cons.mp hdistinct
    obtain ⟨hnew, hunused⟩ := forall_mem_cons.mp hunused
    refine ⟨_, ⟨hnew, rfl⟩, hdistinct, fun q hq hused => ?_, heq⟩
    rcases Dictionary.mem_names_insert.mp hused with hname | hused
    · exact hfirst (mem_map.mpr ⟨q, hq, fileName_inj.mp hname⟩)
    · exact hunused q hq hused
  · rintro ⟨_, ⟨hnew, rfl⟩, hdistinct, hunused, heq⟩
    have hrest : ∀ q ∈ ps, fileName q.name ≠ fileName p.name ∧ fileName q.name ∉ files.names :=
      fun q hq => not_or.mp fun h => hunused q hq (Dictionary.mem_names_insert.mpr h)
    refine ⟨nodup_cons.mpr ⟨fun hmem => ?_, hdistinct⟩,
      forall_mem_cons.mpr ⟨hnew, fun q hq => (hrest q hq).2⟩, heq⟩
    obtain ⟨q, hq, hname⟩ := mem_map.mp hmem
    exact (hrest q hq).1 (congrArg fileName hname)

theorem added_append :
    Added files (ps ++ qs) files' ↔ ∃ next, Added files ps next ∧ Added next qs files' := by
  induction ps generalizing files with
  | nil => simp [added_nil]
  | cons p ps ih =>
    simp only [cons_append, added_cons, ih]
    constructor
    · rintro ⟨_, hp, next, hps, hqs⟩
      exact ⟨next, ⟨_, hp, hps⟩, hqs⟩
    · rintro ⟨next, ⟨_, hp, hps⟩, hqs⟩
      exact ⟨_, hp, next, hps, hqs⟩

/-! ### Entries -/

section Entries

variable {α β : Type} (work : α → Except GenerateError β) (name : α → String)
  (content : β → Lines)

/-- Work out entries one by one and add their files. -/
def addEntries (files : Files) : List α → Except GenerateError (Files × List β)
  | [] => .ok (files, [])
  | x :: xs => do
    let source ← work x
    let files ← addFile files (name x) (content source)
    let (files, sources) ← addEntries files xs
    return (files, source :: sources)

theorem addEntries_eq_ok_iff (hpart : ∀ x y, work x = .ok y → part y = ⟨name x, content y⟩) :
    addEntries work name content files xs = .ok (files', ys) ↔
      List.Forall₂ (fun x y => work x = .ok y) xs ys ∧ Added files (ys.map part) files' := by
  induction xs generalizing files ys with
  | nil =>
    rw [addEntries, forall₂_nil_left_iff, Except.ok.injEq, Prod.mk.injEq]
    constructor
    · rintro ⟨rfl, rfl⟩
      exact ⟨rfl, added_nil.mpr rfl⟩
    · rintro ⟨rfl, h⟩
      exact ⟨(added_nil.mp h).symm, rfl⟩
  | cons x xs ih =>
    rw [addEntries, forall₂_cons_left_iff]
    simp only [bind_eq_ok_iff, pure_eq_ok_iff, Prod.exists, Prod.mk.injEq]
    constructor
    · rintro ⟨y, hy, next, hnext, _, ys', h, rfl, rfl⟩
      obtain ⟨hys, hadded⟩ := ih.mp h
      refine ⟨⟨y, ys', hy, hys, rfl⟩, added_cons.mpr ⟨next, ?_, hadded⟩⟩
      rw [hpart x y hy]
      exact hnext
    · rintro ⟨⟨y, ys', hy, hys, rfl⟩, h⟩
      obtain ⟨next, hnext, hadded⟩ := added_cons.mp h
      rw [hpart x y hy] at hnext
      exact ⟨y, hy, next, hnext, files', ys', ih.mpr ⟨hys, hadded⟩, rfl, rfl⟩

end Entries

theorem addUnits_eq (us : List UnitView) :
    addUnits c v files us = addEntries (fun u => (unitSource v u).mapError (.unit u.name))
      (fun u => moduleName u.name) (UnitSource.lines c) files us := by
  induction us generalizing files with
  | nil => rfl
  | cons u us ih => simp only [addUnits, addEntries, ih]

theorem addScales_eq (ss : List ScaleView) :
    addScales c v files ss = addEntries (fun s => (scaleSource v s).mapError (.scale s.name))
      (fun s => moduleName s.name) (ScaleSource.lines c) files ss := by
  induction ss generalizing files with
  | nil => rfl
  | cons s ss ih => simp only [addScales, addEntries, ih]

/-! ### Sources -/

/-- What was worked out for a view. -/
structure Sources where
  units : List UnitSource
  scales : List ScaleSource
  functions : List FreeFunction

namespace Sources

/-- **The sources of a view**: one for each unit and each scale that has a meaning, and one function
for each operation that no unit hosts. -/
structure Of (s : Sources) (v : View) : Prop where
  units : List.Forall₂ (fun u source => unitSource v u = .ok source) (v.units.filter (·.valid))
    s.units
  scales : List.Forall₂ (fun e source => scaleSource v e = .ok source) (v.scales.filter (·.valid))
    s.scales
  functions : List.Forall₂ (fun o f => freeFunction v o = .ok f) (freeOperations v) s.functions

def unitPart (c : Config) (source : UnitSource) : Part :=
  ⟨moduleName source.unit.name, source.lines c⟩

def scalePart (c : Config) (source : ScaleSource) : Part :=
  ⟨moduleName source.scale.name, source.lines c⟩

/-- The part of the free functions, if there are any. -/
def functionParts (c : Config) (functions : List FreeFunction) : List Part :=
  if functions.isEmpty then [] else [⟨"operations", operationsFile c functions⟩]

/-- The parts of a bundle, in the order in which they are added. -/
def parts (c : Config) (s : Sources) : List Part :=
  ⟨"dimension", dimensionFile c⟩ :: (s.units.map (unitPart c) ++ (s.scales.map (scalePart c)
    ++ functionParts c s.functions))

def root (c : Config) (s : Sources) : Lines :=
  rootFile c s.units s.scales (!s.functions.isEmpty)

end Sources

/-- **The file of a unit ends with its conversions and its operations**, and the lines before do not
depend on them. -/
theorem UnitSource.lines_eq (c : Config) (s : UnitSource) :
    s.lines c = UnitSource.lines c ⟨s.unit, s.family, [], []⟩ ++
      s.conversions.flatMap (fun x => apart x.lines) ++
        s.operations.flatMap (fun x => apart x.lines) := by
  rw [UnitSource.lines, UnitSource.lines, flatMap_nil, flatMap_nil, append_nil, append_nil]

theorem unitSource_eq_ok_iff :
    unitSource v u = .ok source ↔ ∃ family operations, u.family = some family ∧
      List.Forall₂ (fun o impl => operationImpl v o = .ok impl) (hostedOperations v u) operations ∧
      source = ⟨u, family, unitConversions v u, operations⟩ := by
  unfold unitSource
  cases hfamily : u.family with
  | none => exact iff_of_false nofun fun ⟨_, _, h, _⟩ => nomatch h
  | some family =>
    simp only [bind_eq_ok_iff, mapM_eq_ok_iff, hostedImpl, mapError_eq_ok_iff, pure_eq_ok_iff,
      Option.some.injEq]
    constructor
    · rintro ⟨operations, h, rfl⟩
      exact ⟨family, operations, rfl, h, rfl⟩
    · rintro ⟨_, operations, rfl, h, rfl⟩
      exact ⟨operations, h, rfl⟩

theorem unit_of_unitSource (h : unitSource v u = .ok source) : source.unit = u := by
  obtain ⟨_, _, -, -, rfl⟩ := unitSource_eq_ok_iff.mp h
  rfl

theorem scale_of_scaleSource (h : scaleSource v e = .ok source) : source.scale = e := by
  unfold scaleSource at h
  split at h
  · split at h
    · split at h
      · cases h
        rfl
      · cases h
    · cases h
  · cases h

theorem addUnits_eq_ok_iff :
    addUnits c v files us = .ok (files', sources) ↔
      List.Forall₂ (fun u source => unitSource v u = .ok source) us sources ∧
        Added files (sources.map (Sources.unitPart c)) files' := by
  have hpart (u : UnitView) (source : UnitSource)
      (h : (unitSource v u).mapError (GenerateError.unit u.name) = .ok source) :
      Sources.unitPart c source = ⟨moduleName u.name, source.lines c⟩ := by
    rw [Sources.unitPart, unit_of_unitSource (mapError_eq_ok_iff.mp h)]
  rw [addUnits_eq, addEntries_eq_ok_iff _ _ _ hpart]
  simp only [mapError_eq_ok_iff]

theorem addScales_eq_ok_iff :
    addScales c v files ss = .ok (files', sources) ↔
      List.Forall₂ (fun e source => scaleSource v e = .ok source) ss sources ∧
        Added files (sources.map (Sources.scalePart c)) files' := by
  have hpart (e : ScaleView) (source : ScaleSource)
      (h : (scaleSource v e).mapError (GenerateError.scale e.name) = .ok source) :
      Sources.scalePart c source = ⟨moduleName e.name, source.lines c⟩ := by
    rw [Sources.scalePart, scale_of_scaleSource (mapError_eq_ok_iff.mp h)]
  rw [addScales_eq, addEntries_eq_ok_iff _ _ _ hpart]
  simp only [mapError_eq_ok_iff]

theorem addOperations_eq_ok_iff :
    addOperations c v files = .ok files' ↔ ∃ functions,
      List.Forall₂ (fun o f => freeFunction v o = .ok f) (freeOperations v) functions ∧
        Added files (Sources.functionParts c functions) files' := by
  simp only [addOperations, bind_eq_ok_iff, mapM_eq_ok_iff, mapError_eq_ok_iff]
  refine exists_congr fun functions => and_congr_right fun _ => ?_
  unfold Sources.functionParts
  split
  · rw [pure_eq_ok_iff, added_nil]
  · simp [added_cons, added_nil]

theorem isEmpty_eq_of_forall₂ (h : List.Forall₂ r xs ys) : xs.isEmpty = ys.isEmpty := by
  cases h <;> rfl

/-- **When source can be generated, and what it is**: the sources of all entries can be worked out,
their parts have files of their own, and the root file is put next to them, or in place of one. -/
theorem generate_eq_ok_iff :
    generate c v = .ok b ↔ ∃ s : Sources, s.Of v ∧ ∃ files, Added {} (s.parts c) files ∧
      b = ⟨c.moduleName, files.insert rootName (text (s.root c))⟩ := by
  simp only [generate, bind_eq_ok_iff, Prod.exists, addUnits_eq_ok_iff, addScales_eq_ok_iff,
    addOperations_eq_ok_iff, pure_eq_ok_iff]
  constructor
  · rintro ⟨_, hdimension, _, units, ⟨hunits, haddedUnits⟩, _, scales, ⟨hscales, haddedScales⟩,
      files, ⟨functions, hfunctions, haddedFunctions⟩, rfl⟩
    refine ⟨⟨units, scales, functions⟩, ⟨hunits, hscales, hfunctions⟩, files, ?_, ?_⟩
    · exact added_cons.mpr ⟨_, hdimension, added_append.mpr ⟨_, haddedUnits,
        added_append.mpr ⟨_, haddedScales, haddedFunctions⟩⟩⟩
    · rw [isEmpty_eq_of_forall₂ hfunctions, Sources.root]
  · rintro ⟨s, ⟨hunits, hscales, hfunctions⟩, files, hadded, rfl⟩
    obtain ⟨_, hdimension, hadded⟩ := added_cons.mp hadded
    obtain ⟨_, haddedUnits, hadded⟩ := added_append.mp hadded
    obtain ⟨_, haddedScales, haddedFunctions⟩ := added_append.mp hadded
    refine ⟨_, hdimension, _, s.units, ⟨hunits, haddedUnits⟩, _, s.scales,
      ⟨hscales, haddedScales⟩, _, ⟨s.functions, hfunctions, haddedFunctions⟩, ?_⟩
    rw [isEmpty_eq_of_forall₂ hfunctions, Sources.root]

end Quantity.Source
