import Quantity.Proofs.Source.Bundle

/-!
# Bundles without a loss

The root file of a bundle declares the modules of all other files (`filter_declaresModule_root`).
It is added last, and whether it has a name of its own is not looked at. So each file that a view
needs is there with what belongs in it, exactly if no entry has the name of the root file
(`generate_complete_iff`).
-/

namespace Quantity.Source

open List

open Quantity.Text (Dictionary)

variable {c : Config} {v : View} {b : Bundle}

/-! ### What is in the files -/

/-- The names of the entries that files are generated for. -/
def entryNames (v : View) : List String :=
  (v.units.filter (·.valid)).map (·.name) ++ (v.scales.filter (·.valid)).map (·.name)

def moduleNames (v : View) : List String :=
  "dimension" :: ((entryNames v).map moduleName
    ++ onlyIf (!(freeOperations v).isEmpty) ["operations"])

/-- What the declaration of a module begins with. -/
def moduleStart : List Char := ['p', 'u', 'b', ' ', 'm', 'o', 'd', ' ']

/-- Whether a line of the root file declares a module. -/
def declaresModule (line : String) : Bool := moduleStart.isPrefixOf line.toList

/-- The number of files that a view needs. -/
def fileCount (v : View) : Nat :=
  2 + (v.units.filter (·.valid)).length + (v.scales.filter (·.valid)).length
    + (if (freeOperations v).isEmpty then 0 else 1)

namespace Bundle

/-- **What a bundle keeps**: the root file with the tree of all modules, the fixed files, and the
files of entries with certain names. -/
structure Keeps (b : Bundle) (c : Config) (v : View) (kept : String → Prop) : Prop where
  root : ∃ s : Sources, s.Of v ∧ b.files.get? rootName = some (text (s.root c)) ∧
    (s.root c).filter declaresModule =
      (moduleNames v).map fun name => "pub mod " ++ identifier name ++ ";"
  dimension : b.files.get? "dimension.rs" = some (text (dimensionFile c))
  units : ∀ u ∈ v.units, u.valid = true → kept (moduleName u.name) →
    ∃ source, unitSource v u = .ok source ∧
      b.files.get? (fileName (moduleName u.name)) = some (text (source.lines c))
  scales : ∀ e ∈ v.scales, e.valid = true → kept (moduleName e.name) →
    ∃ source, scaleSource v e = .ok source ∧
      b.files.get? (fileName (moduleName e.name)) = some (text (source.lines c))
  operations : freeOperations v ≠ [] → ∃ functions,
    List.Forall₂ (fun o f => freeFunction v o = .ok f) (freeOperations v) functions ∧
      b.files.get? "operations.rs" = some (text (operationsFile c functions))

/-- **No file is lost**: what a view needs is there, each in a file of its own, and nothing else. -/
structure IsComplete (b : Bundle) (c : Config) (v : View) : Prop extends
    b.Keeps c v (fun _ => True) where
  names : b.files.names.Perm (rootName :: (moduleNames v).map fileName)
  size : b.files.size = fileCount v

end Bundle

namespace Sources

theorem Of.map_unit {s : Sources} (h : s.Of v) :
    s.units.map (·.unit) = v.units.filter (·.valid) := by
  rw [eq_comm, ← forall₂_eq_eq_eq, forall₂_map_right_iff]
  exact h.units.imp fun _ _ hsource => (unit_of_unitSource hsource).symm

theorem Of.map_scale {s : Sources} (h : s.Of v) :
    s.scales.map (·.scale) = v.scales.filter (·.valid) := by
  rw [eq_comm, ← forall₂_eq_eq_eq, forall₂_map_right_iff]
  exact h.scales.imp fun _ _ hsource => (scale_of_scaleSource hsource).symm

theorem Of.entryNames_eq {s : Sources} (h : s.Of v) :
    entryNames v = s.units.map (·.unit.name) ++ s.scales.map (·.scale.name) := by
  rw [entryNames, ← h.map_unit, ← h.map_scale, map_map, map_map]
  rfl

theorem Of.map_name_parts {s : Sources} (h : s.Of v) :
    (s.parts c).map (·.name) = moduleNames v := by
  rw [moduleNames, h.entryNames_eq, isEmpty_eq_of_forall₂ h.functions]
  simp only [parts, map_cons, map_append,
    map_map, List.append_assoc]
  cases s.functions <;> rfl

end Sources

/-- **When source can be generated**: each entry and each free function can be worked out, and no
two of them share a file. -/
theorem exists_generate_iff :
    (∃ b, generate c v = .ok b) ↔
      (∀ u ∈ v.units.filter (·.valid), ∃ source, unitSource v u = .ok source) ∧
      (∀ e ∈ v.scales.filter (·.valid), ∃ source, scaleSource v e = .ok source) ∧
      (∀ o ∈ freeOperations v, ∃ f, freeFunction v o = .ok f) ∧ (moduleNames v).Nodup := by
  simp only [← exists_mapM_eq_ok_iff, mapM_eq_ok_iff, generate_eq_ok_iff]
  constructor
  · rintro ⟨_, s, hs, _, hadded, -⟩
    exact ⟨⟨_, hs.units⟩, ⟨_, hs.scales⟩, ⟨_, hs.functions⟩, hs.map_name_parts ▸ hadded.distinct⟩
  · rintro ⟨⟨units, hunits⟩, ⟨scales, hscales⟩, ⟨functions, hfunctions⟩, hnodup⟩
    have hs : Sources.Of ⟨units, scales, functions⟩ v := ⟨hunits, hscales, hfunctions⟩
    exact ⟨_, _, hs, _, ⟨hs.map_name_parts ▸ hnodup, fun _ _ => not_mem_nil, rfl⟩, rfl⟩

theorem mod_mem_moduleNames_iff :
    "mod" ∈ moduleNames v ↔ "mod" ∈ (entryNames v).map moduleName := by
  unfold moduleNames onlyIf
  split <;> simp

theorem rootName_mem_iff :
    rootName ∈ (moduleNames v).map fileName ↔ "mod" ∈ (entryNames v).map moduleName := by
  rw [rootName_eq, mem_map_of_injective fun _ _ => fileName_inj.mp, mod_mem_moduleNames_iff]

theorem operations_mem_names_iff :
    "operations.rs" ∈ rootName :: (moduleNames v).map fileName ↔
      freeOperations v ≠ [] ∨ "operations" ∈ (entryNames v).map moduleName := by
  have hfile : "operations.rs" = fileName "operations" := by decide +kernel
  have hroot : ¬ "operations.rs" = rootName := by decide +kernel
  rw [mem_cons, or_iff_right hroot, hfile,
    mem_map_of_injective fun _ _ => fileName_inj.mp, moduleNames, mem_cons,
    or_iff_right (by decide), mem_append, or_comm]
  refine or_congr ?_ Iff.rfl
  cases freeOperations v <;> simp [onlyIf]

theorem length_moduleNames : (moduleNames v).length + 1 = fileCount v := by
  unfold moduleNames entryNames fileCount onlyIf
  cases (freeOperations v).isEmpty
  · simp
    omega
  · simp
    omega

/-! ### The tree of the modules -/

theorem declaresModule_ofList (cs : List Char) :
    declaresModule (String.ofList cs) = moduleStart.isPrefixOf cs := by
  rw [declaresModule, String.toList_ofList]

theorem declaresModule_append (h : moduleStart.length ≤ cs.length) (rest : String) :
    declaresModule (String.ofList cs ++ rest) = moduleStart.isPrefixOf cs := by
  have hline : String.ofList cs ++ rest = String.ofList (cs ++ rest.toList) := by
    rw [String.ofList_append, String.ofList_toList]
  rw [hline, declaresModule_ofList, Bool.eq_iff_iff, isPrefixOf_iff_prefix,
    isPrefixOf_iff_prefix, prefix_iff_eq_take, prefix_iff_eq_take,
    take_append_of_le_length h]

theorem declaresModule_indented (line : String) : declaresModule (indented line) = false := by
  unfold indented
  split
  next hempty =>
    rw [String.isEmpty_iff.mp hempty]
    rfl
  next =>
    have hline : "    " ++ line = String.ofList ([' ', ' ', ' ', ' '] ++ line.toList) := by
      rw [String.ofList_append, String.ofList_toList]
    rw [hline, declaresModule_ofList]
    rfl

theorem filter_map_eq_nil {line : α → String} (h : ∀ x, declaresModule (line x) = false)
    (xs : List α) : (xs.map line).filter declaresModule = [] := by
  refine filter_eq_nil_iff.mpr fun l hl => ?_
  obtain ⟨x, -, rfl⟩ := mem_map.mp hl
  rw [h x]
  exact Bool.false_ne_true

theorem filter_cons (h : moduleStart.isPrefixOf cs = false) :
    List.filter declaresModule (String.ofList cs :: lines) = lines.filter declaresModule :=
  filter_cons_of_neg (by rw [declaresModule_ofList, h]; exact Bool.false_ne_true)

theorem filter_block (hlength : moduleStart.length ≤ cs.length)
    (h : moduleStart.isPrefixOf cs = false) :
    (block (String.ofList cs) body).filter declaresModule = [] := by
  rw [block, cons_append, filter_cons_of_neg, filter_append,
    filter_map_eq_nil declaresModule_indented]
  · rfl
  · rw [declaresModule_append hlength, h]
    exact Bool.false_ne_true

theorem filter_apart (lines : Lines) :
    (apart lines).filter declaresModule = lines.filter declaresModule :=
  filter_cons rfl

theorem filter_catalogTypes : catalogTypes.filter declaresModule = [] := by
  delta catalogTypes
  rw [filter_append, filter_append, filter_append, filter_apart,
    filter_block (by decide) (by decide), filter_block (by decide) (by decide),
    filter_cons (by decide), filter_cons (by decide), filter_cons (by decide),
    filter_cons (by decide)]
  rfl

theorem filter_catalogLookups : catalogLookups.filter declaresModule = [] := by
  delta catalogLookups
  rw [filter_append, filter_append, filter_append, filter_apart, filter_apart,
    filter_apart, filter_apart, filter_block (by decide) (by decide),
    filter_block (by decide) (by decide), filter_block (by decide) (by decide),
    filter_block (by decide) (by decide)]
  rfl

theorem declaresModule_moduleLine (name : String) : declaresModule (moduleLine name) = true := by
  rw [moduleLine, String.append_assoc, declaresModule_append (by decide)]
  decide

theorem declaresModule_exportLine (name : String) : declaresModule (exportLine name) = false := by
  rw [exportLine, String.append_assoc, String.append_assoc, String.append_assoc,
    declaresModule_append (by decide)]
  decide

theorem declaresModule_unitCatalogLine (source : UnitSource) :
    declaresModule (unitCatalogLine source) = false := by
  delta unitCatalogLine
  simp only [String.append_assoc]
  rw [declaresModule_append (by decide)]
  decide

theorem declaresModule_scaleCatalogLine (source : ScaleSource) :
    declaresModule (scaleCatalogLine source) = false := by
  delta scaleCatalogLine
  simp only [String.append_assoc]
  rw [declaresModule_append (by decide)]
  decide

theorem filter_onlyIf (condition : Bool) (lines : Lines) :
    (onlyIf condition lines).filter declaresModule =
      onlyIf condition (lines.filter declaresModule) := by
  cases condition <;> rfl

theorem map_moduleNames {s : Sources} (h : s.Of v) :
    ((moduleNames v).map fun name => "pub mod " ++ identifier name ++ ";") =
      "pub mod dimension;" ::
        ((s.units.map (·.unit.name) ++ s.scales.map (·.scale.name)).map moduleLine
          ++ onlyIf (!s.functions.isEmpty) ["pub mod operations;"]) := by
  have hdimension : "pub mod " ++ identifier "dimension" ++ ";" = "pub mod dimension;" := by
    decide +kernel
  have hoperations : "pub mod " ++ identifier "operations" ++ ";" = "pub mod operations;" := by
    decide +kernel
  have hlines (names : List String) : (names.map moduleName).map
      (fun name => "pub mod " ++ identifier name ++ ";") = names.map moduleLine := by
    rw [map_map]
    rfl
  rw [moduleNames, h.entryNames_eq, isEmpty_eq_of_forall₂ h.functions, map_cons,
    map_append, hlines, hdimension]
  cases s.functions.isEmpty with
  | true => rfl
  | false => simp [onlyIf, hoperations]

/-- **The root file declares the modules**, and nothing else as a module. -/
theorem filter_declaresModule_root {s : Sources} (h : s.Of v) :
    (s.root c).filter declaresModule =
      (moduleNames v).map fun name => "pub mod " ++ identifier name ++ ";" := by
  have hheader : List.filter declaresModule
      ["//! Generated units of measurement: " ++ c.moduleName, "//!", "//! Do not edit by hand.",
        "", "#![allow(non_camel_case_types)]", "#![allow(clippy::excessive_precision)]", ""] =
      [] := by
    rw [filter_cons_of_neg, filter_cons rfl, filter_cons rfl, filter_cons rfl, filter_cons rfl,
      filter_cons rfl]
    · rfl
    · rw [declaresModule_append (by decide)]
      decide
  have hmodules (names : List String) :
      (names.map moduleLine).filter declaresModule = names.map moduleLine := by
    refine filter_eq_self.mpr fun l hl => ?_
    obtain ⟨name, -, rfl⟩ := mem_map.mp hl
    exact declaresModule_moduleLine name
  have hdimension : List.filter declaresModule ["pub mod dimension;"] = ["pub mod dimension;"] :=
    filter_cons_of_pos (declaresModule_ofList _)
  have hoperations : List.filter declaresModule ["pub mod operations;"] = ["pub mod operations;"] :=
    filter_cons_of_pos (declaresModule_ofList _)
  have huses : List.filter declaresModule ["pub use rust_decimal::Decimal;", ""] = [] ∧
      List.filter declaresModule ["", "pub use dimension::Dimension;"] = [] ∧
      List.filter declaresModule ["pub use operations::*;"] = [] :=
    ⟨(filter_cons rfl).trans (filter_cons rfl), (filter_cons rfl).trans (filter_cons rfl),
      filter_cons rfl⟩
  have hcatalog : List.filter declaresModule ["pub const UNITS: &[UnitEntry] = &["] = [] ∧
      List.filter declaresModule ["pub const SCALES: &[ScaleEntry] = &["] = [] ∧
      List.filter declaresModule ["];"] = [] :=
    ⟨filter_cons rfl, filter_cons rfl, filter_cons rfl⟩
  rw [map_moduleNames h, Sources.root]
  delta rootFile
  simp only [filter_append, filter_onlyIf, filter_apart, hheader, hmodules, hdimension,
    hoperations, huses, hcatalog, filter_catalogTypes, filter_catalogLookups,
    filter_map_eq_nil declaresModule_exportLine, filter_map_eq_nil declaresModule_unitCatalogLine,
    filter_map_eq_nil declaresModule_scaleCatalogLine]
  cases s.functions.isEmpty <;> simp [onlyIf]

/-! ### Losing no file -/

section Generated

variable (h : generate c v = .ok b)
include h

/-- A part is found in its file, unless the root file has taken it. -/
theorem exists_sources_of_generate :
    ∃ s : Sources, s.Of v ∧ b.files.get? rootName = some (text (s.root c)) ∧
      ∀ p ∈ s.parts c, p.name ≠ "mod" → b.files.get? (fileName p.name) = some (text p.content) := by
  obtain ⟨s, hs, files, ⟨hdistinct, -, rfl⟩, rfl⟩ := generate_eq_ok_iff.mp h
  refine ⟨s, hs, ?_, fun p hp hname => ?_⟩
  · exact Dictionary.get?_insert.trans (if_pos rfl)
  · have hroot : rootName ≠ fileName p.name := fun heq =>
      hname (fileName_inj.mp (rootName_eq.symm.trans heq)).symm
    refine Dictionary.get?_insert.trans ((if_neg hroot).trans ?_)
    refine Dictionary.get?_insertAll ?_ (mem_map_of_mem hp)
    have hfiles : ((s.parts c).map Part.file).map (·.1) =
        ((s.parts c).map (·.name)).map fileName := by
      rw [map_map, map_map]
      rfl
    rw [hfiles]
    exact hdistinct.map fun _ _ => fileName_inj.mp

/-- What was worked out for a unit is in its file, unless the root file has taken it. -/
theorem exists_unitSource_of_generate (hu : u ∈ v.units) (hvalid : u.valid = true) :
    ∃ source, unitSource v u = .ok source ∧ (moduleName u.name ≠ "mod" →
      b.files.get? (fileName (moduleName u.name)) = some (text (source.lines c))) := by
  obtain ⟨s, hs, -, hparts⟩ := exists_sources_of_generate h
  obtain ⟨source, hsource, hwork⟩ := exists_of_forall₂ hs.units (mem_filter.mpr ⟨hu, hvalid⟩)
  have hmem : Sources.unitPart c source ∈ s.parts c :=
    mem_cons_of_mem _ (mem_append_left _ (mem_map_of_mem hsource))
  obtain rfl := unit_of_unitSource hwork
  exact ⟨source, hwork, hparts (Sources.unitPart c source) hmem⟩

/-- What was worked out for a scale is in its file, unless the root file has taken it. -/
theorem exists_scaleSource_of_generate (he : e ∈ v.scales) (hvalid : e.valid = true) :
    ∃ source, scaleSource v e = .ok source ∧ (moduleName e.name ≠ "mod" →
      b.files.get? (fileName (moduleName e.name)) = some (text (source.lines c))) := by
  obtain ⟨s, hs, -, hparts⟩ := exists_sources_of_generate h
  obtain ⟨source, hsource, hwork⟩ := exists_of_forall₂ hs.scales (mem_filter.mpr ⟨he, hvalid⟩)
  have hmem : Sources.scalePart c source ∈ s.parts c :=
    mem_cons_of_mem _ (mem_append_right _
      (mem_append_left _ (mem_map_of_mem hsource)))
  obtain rfl := scale_of_scaleSource hwork
  exact ⟨source, hwork, hparts (Sources.scalePart c source) hmem⟩

theorem keeps_of_generate {kept : String → Prop}
    (hkept : ∀ name ∈ entryNames v, kept (moduleName name) → moduleName name ≠ "mod") :
    b.Keeps c v kept := by
  obtain ⟨s, hs, hroot, hparts⟩ := exists_sources_of_generate h
  constructor
  case root => exact ⟨s, hs, hroot, filter_declaresModule_root hs⟩
  case dimension =>
    exact hparts ⟨"dimension", dimensionFile c⟩ mem_cons_self
      (show "dimension" ≠ "mod" by decide)
  case units =>
    intro u hu hvalid hkeep
    have hname : u.name ∈ entryNames v :=
      mem_append_left _ (mem_map_of_mem (mem_filter.mpr ⟨hu, hvalid⟩))
    obtain ⟨source, hsource, hfile⟩ := exists_unitSource_of_generate h hu hvalid
    exact ⟨source, hsource, hfile (hkept _ hname hkeep)⟩
  case scales =>
    intro e he hvalid hkeep
    have hname : e.name ∈ entryNames v :=
      mem_append_right _ (mem_map_of_mem (mem_filter.mpr ⟨he, hvalid⟩))
    obtain ⟨source, hsource, hfile⟩ := exists_scaleSource_of_generate h he hvalid
    exact ⟨source, hsource, hfile (hkept _ hname hkeep)⟩
  case operations =>
    intro hfree
    refine ⟨s.functions, hs.functions, hparts ⟨"operations", operationsFile c s.functions⟩ ?_
      (show "operations" ≠ "mod" by decide)⟩
    have hsome : s.functions.isEmpty = false := by
      rw [← isEmpty_eq_of_forall₂ hs.functions]
      exact isEmpty_eq_false_iff.mpr hfree
    refine mem_cons_of_mem _ (mem_append_right _ (mem_append_right _ ?_))
    rw [Sources.functionParts, hsome]
    exact mem_cons_self

theorem nodup_names_of_generate :
    b.files.names.Nodup ∧ ((moduleNames v).map fileName).Nodup ∧
      ∀ file, file ∈ b.files.names ↔ file = rootName ∨ file ∈ (moduleNames v).map fileName := by
  obtain ⟨s, hs, files, ⟨hdistinct, -, rfl⟩, rfl⟩ := generate_eq_ok_iff.mp h
  rw [hs.map_name_parts] at hdistinct
  have hempty : ({} : Files).Ordered := List.Pairwise.nil
  refine ⟨hempty.insertAll.insert.nodup, hdistinct.map fun _ _ => fileName_inj.mp, fun file => ?_⟩
  rw [Dictionary.mem_names_insert, Dictionary.mem_names_insertAll, ← hs.map_name_parts (c := c),
    map_map, map_map, or_iff_left (b := file ∈ ({} : Files).names) not_mem_nil]
  rfl

theorem isComplete_of_generate (hmod : "mod" ∉ (entryNames v).map moduleName) :
    b.IsComplete c v := by
  obtain ⟨hnodup, hmodules, hmem⟩ := nodup_names_of_generate h
  have hnew : (rootName :: (moduleNames v).map fileName).Nodup :=
    nodup_cons.mpr ⟨mt rootName_mem_iff.mp hmod, hmodules⟩
  have hnames : b.files.names.Perm (rootName :: (moduleNames v).map fileName) :=
    (perm_ext_iff_of_nodup hnodup hnew).mpr fun file => (hmem file).trans mem_cons.symm
  refine ⟨keeps_of_generate h fun name hname _ heq => ?_, hnames, ?_⟩
  · exact hmod (mem_map.mpr ⟨name, hname, heq⟩)
  · rw [Dictionary.size_eq, hnames.length_eq, length_cons, length_map, length_moduleNames]

/-- **No file is lost exactly if no entry takes the name of the root file.** Otherwise that entry
has no file, and only it. -/
theorem generate_complete_iff :
    (b.IsComplete c v ↔ "mod" ∉ (entryNames v).map moduleName) ∧
      ("mod" ∈ (entryNames v).map moduleName →
        b.Keeps c v (· ≠ "mod") ∧ b.files.names.Perm ((moduleNames v).map fileName) ∧
          b.files.size + 1 = fileCount v) := by
  obtain ⟨hnodup, hmodules, hmem⟩ := nodup_names_of_generate h
  have hnames (hmod : "mod" ∈ (entryNames v).map moduleName) :
      b.files.names.Perm ((moduleNames v).map fileName) := by
    refine (perm_ext_iff_of_nodup hnodup hmodules).mpr fun file => (hmem file).trans ?_
    exact or_iff_right_of_imp fun hfile => hfile ▸ rootName_mem_iff.mpr hmod
  have hsize (hmod : "mod" ∈ (entryNames v).map moduleName) : b.files.size + 1 = fileCount v := by
    rw [Dictionary.size_eq, (hnames hmod).length_eq, length_map, length_moduleNames]
  refine ⟨⟨fun hcomplete hmod => ?_, isComplete_of_generate h⟩, fun hmod =>
    ⟨keeps_of_generate h fun _ _ hname => hname, hnames hmod, hsize hmod⟩⟩
  have := hcomplete.size
  have := hsize hmod
  omega

end Generated

/-- A length with the name of the root file, and an area. -/
def moduliAndArea : String := "unit Mod \"m\" = <Length>; unit Area \"a\" = Mod * Mod;"

/-- One file of four is lost. -/
theorem generate_complete_iff_moduliAndArea :
    ∃ d b, compile moduliAndArea { kind := .decimal } = .ok d ∧ d.isSuccess = true ∧
      generate {} d.model.fullView = .ok b ∧
      "mod" ∈ (entryNames d.model.fullView).map moduleName ∧
      ¬ b.IsComplete {} d.model.fullView ∧ b.Keeps {} d.model.fullView (· ≠ "mod") ∧
      fileCount d.model.fullView = 4 ∧ b.files.size = 3 := by
  obtain ⟨d, hd, b, hb, hok, hnames, hcount⟩ :
      ∃ d, compile moduliAndArea { kind := .decimal } = .ok d ∧
        ∃ b, generate {} d.model.fullView = .ok b ∧ d.isSuccess = true ∧
          (entryNames d.model.fullView).map moduleName = ["mod", "area"] ∧
          fileCount d.model.fullView = 4 := by
    decide +kernel
  have hmod : "mod" ∈ (entryNames d.model.fullView).map moduleName := hnames ▸ mem_cons_self
  obtain ⟨hcomplete, hlost⟩ := generate_complete_iff hb
  obtain ⟨hkeeps, -, hsize⟩ := hlost hmod
  rw [hcount] at hsize
  exact ⟨d, b, hd, hok, hb, hmod, fun h => hcomplete.mp h hmod, hkeeps, hcount,
    Nat.succ.inj hsize⟩

end Quantity.Source
