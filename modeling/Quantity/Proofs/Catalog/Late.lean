import Quantity.Proofs.Catalog.Families
import Quantity.Proofs.Model.Family

/-!
# Late entries behind a catalog

Late entries are numbered behind the entries of a catalog. The numbers depend on the order of
the entries, but `familiesFit_late` says that each entry gets into the family it belongs to.
-/

namespace Quantity

open Model List

/-- Late entries that have a meaning, but no family yet. -/
structure LateEntries (c : Catalog) (us : List UnitEntry) (ss : List ScaleEntry) : Prop where
  units : ∀ u ∈ us, u.valid = true ∧ u.family = none
  declared : ∀ u ∈ us, u.origin.module? = none
  redeclared : ∀ u ∈ us, u.redeclared = c.units.any (·.name = u.name)
  scales : ∀ s ∈ ss, s.valid = true ∧ s.family = none
  unit : ∀ s ∈ ss, ∃ name i, s.unit = some i ∧
    findUnit? { units := c.restored.units ++ us } name = some i

/-- The descriptor of a unit in a family. -/
def UnitEntry.descriptor (module : String) (u : UnitEntry) (f : FamilyId) : UnitDescriptor :=
  { name := u.name
    module
    kind := u.kind
    dimension := u.dimension.value
    factor := u.factor.value
    constant := u.factor.constant
    format := u.format
    tags := u.tags
    family := f }

/-- The descriptor of a scale over a unit in a family. -/
def ScaleEntry.descriptor (module : String) (unit : UnitEntry) (s : ScaleEntry) (f : FamilyId) :
    ScaleDescriptor :=
  { name := s.name
    module
    unit := unit.name
    unitModule := unit.origin.module?.getD module
    offset := s.offset.value
    refPoint := s.refPoint
    format := s.format
    family := f }

theorem UnitEntry.describe?_inFamily {u : UnitEntry} (h : u.valid = true) (module : String)
    (f : FamilyId) : (u.inFamily f).describe? module = some (u.descriptor module f) := by
  unfold describe? inFamily
  rw [if_pos h]
  rfl

theorem UnitEntry.filterMap_describe? {us : List UnitEntry} (h : ∀ u ∈ us, u.valid = true)
    (fs : List FamilyId) (module : String) :
    ((us.zip fs).map fun p => p.1.inFamily p.2).filterMap (·.describe? module) =
      (us.zip fs).map fun p => p.1.descriptor module p.2 := by
  rw [filterMap_map]
  refine (filterMap_congr fun p hp => ?_).trans (congrFun filterMap_eq_map _)
  exact describe?_inFamily (h p.1 (of_mem_zip hp).1) module p.2

theorem UnitEntry.forall₂_descriptor {us : List UnitEntry} (h : fs.length = us.length)
    (module : String) :
    List.Forall₂ (fun u d => ∃ f, d = u.descriptor module f) us
      ((us.zip fs).map fun p => p.1.descriptor module p.2) := by
  have hzip : List.Forall₂ (fun u d => ∃ f, d = descriptor module u f) ((us.zip fs).map (·.1))
      ((us.zip fs).map fun p => p.1.descriptor module p.2) := by
    rw [forall₂_map_left_iff, forall₂_map_right_iff]
    exact forall₂_same.mpr fun p _ => ⟨p.2, rfl⟩
  rwa [map_fst_zip h.ge] at hzip

theorem ScaleEntry.describe?_inFamily {s : ScaleEntry} {unit : UnitEntry} (h : s.valid = true)
    (hi : s.unit = some i) (hu : m.units[i]? = some unit) (module : String) (f : FamilyId) :
    (s.inFamily f).describe? m module = some (s.descriptor module unit f) := by
  unfold describe? inFamily
  rw [if_pos h]
  rw [hi, Option.bind_some, hu]
  rfl

namespace Catalog

/-- The number behind all that are in use, zero if there is none. -/
def nextFamily (c : Catalog) : FamilyId := c.nextFamily?.getD 0

/-- The catalog has room for that many new families. -/
def HasRoom (c : Catalog) (count : Nat) : Prop :=
  count < UInt32.size ∧ ∀ f ∈ c.families, f.toNat + 1 + count < UInt32.size

/-- The numbers that units may have, and the next one. -/
def unitNumbering (c : Catalog) : Numbering Dimension :=
  ⟨c.units.map fun u => (u.dimension, u.family), c.nextFamily⟩

/-- Late units with the numbers of their families. -/
def unitsNumbered (c : Catalog) (us : List UnitEntry) : List (UnitEntry × FamilyId) :=
  us.zip (c.unitNumbering.assign (us.map (·.familyKey))).1

/-- All units, once the late ones are in their families. -/
def allUnits (c : Catalog) (us : List UnitEntry) : List UnitEntry :=
  c.restored.units ++ (c.unitsNumbered us).map fun p => p.1.inFamily p.2

/-- The numbers that scales may have, and the next one. -/
def scaleNumbering (c : Catalog) (us : List UnitEntry) : Numbering (String × FamilyId) :=
  ⟨c.scales.filterMap fun s => (scaleKey c.units s).map (·, s.family),
    (c.unitNumbering.assign (us.map (·.familyKey))).2.next⟩

/-- Late scales with the numbers of their families. -/
def scalesNumbered (c : Catalog) (us : List UnitEntry) (ss : List ScaleEntry) :
    List (ScaleEntry × FamilyId) :=
  ss.zip ((c.scaleNumbering us).assign (ss.map (·.familyKey (c.allUnits us)))).1

/-- How many families late entries open. -/
def opened (c : Catalog) (us : List UnitEntry) (ss : List ScaleEntry) : Nat :=
  c.unitNumbering.opened (us.map (·.familyKey)) +
    (c.scaleNumbering us).opened (ss.map (·.familyKey (c.allUnits us)))

/-- All scales, once the late ones are in their families. -/
def allScales (c : Catalog) (us : List UnitEntry) (ss : List ScaleEntry) : List ScaleEntry :=
  c.restored.scales ++ (c.scalesNumbered us ss).map fun p => p.1.inFamily p.2

variable {c : Catalog} {us : List UnitEntry} {ss : List ScaleEntry}

/-! ### Known numbers -/

theorem get?_unitNumbering (c : Catalog) : c.unitNumbering.get? = c.unitNumber := by
  funext dimension
  unfold unitNumbering Numbering.get? unitNumber
  rw [find?_map, Option.map_map]
  rfl

theorem get?_scaleNumbering (c : Catalog) (us : List UnitEntry) :
    (c.scaleNumbering us).get? = c.scaleNumber := by
  funext key
  have hkey (s : ScaleDescriptor) : ((scaleKey c.units s).map (·, s.family)).any (·.1 = key) =
      decide (scaleKey c.units s = some key) := by
    cases scaleKey c.units s <;> simp
  unfold scaleNumbering Numbering.get? scaleNumber
  rw [find?_filterMap]
  simp only [hkey]
  cases hfind : c.scales.find? fun s => decide (scaleKey c.units s = some key) with
  | none => rfl
  | some s =>
    have hs : scaleKey c.units s = some key := by simpa using find?_some hfind
    rw [Option.bind_some, hs]
    rfl

theorem unitFamilies_late (h : LateEntries c us ss) :
    unitFamilies (c.restored.units ++ us) = c.unitNumbering.known := by
  have hus : unitFamilies us = [] := by
    refine filterMap_eq_nil_iff.mpr fun u hu => ?_
    rw [(h.units u hu).2]
    split_ifs <;> rfl
  unfold unitFamilies at hus ⊢
  rw [filterMap_append, hus, append_nil]
  exact filterMap_map.trans (congrFun filterMap_eq_map _)

/-- The restored model with late entries behind its own. -/
def lateModel (c : Catalog) (us : List UnitEntry) (ss : List ScaleEntry) : Model :=
  { c.restored.beginLate with
    units := c.restored.units ++ us
    scales := c.restored.scales ++ ss }

theorem familyIds_late (h : LateEntries c us ss) : (c.lateModel us ss).familyIds = c.families := by
  have hus : us.filterMap (·.family) = [] :=
    filterMap_eq_nil_iff.mpr fun u hu => (h.units u hu).2
  have hss : ss.filterMap (·.family) = [] :=
    filterMap_eq_nil_iff.mpr fun s hs => (h.scales s hs).2
  have hunits : c.restored.units.filterMap (·.family) = c.units.map (·.family) :=
    filterMap_map.trans (congrFun filterMap_eq_map _)
  have hscales : c.restored.scales.filterMap (·.family) = c.scales.map (·.family) :=
    filterMap_map.trans (congrFun filterMap_eq_map _)
  unfold familyIds lateModel
  rw [filterMap_append, filterMap_append, hus, hss, hunits, hscales, append_nil,
    append_nil]
  rfl

theorem unitFamily?_entry (c : Catalog) (us : List UnitEntry) (s : ScaleDescriptor) :
    unitFamily? (c.allUnits us) (s.entry c.units) = unitFamilyIn c.units s := by
  unfold unitFamilyIn
  rw [find?_reverse_eq]
  show ((places c.units s.owns).getLast?.bind fun i => ((c.allUnits us)[i]?).bind (·.family)) = _
  cases hlast : (places c.units s.owns).getLast? with
  | none => rfl
  | some i =>
    have hlt := getLast?_places_lt hlast
    have hget : (c.allUnits us)[i]? = c.units[i]?.map (·.entry) := by
      unfold allUnits restored
      rw [getElem?_append_left (by rw [length_map]; exact hlt), getElem?_map]
    rw [Option.bind_some, Option.bind_some, hget, getElem?_eq_getElem hlt]
    rfl

theorem scaleFamilies_late (h : LateEntries c us ss) :
    scaleFamilies (c.allUnits us) (c.restored.scales ++ ss) = (c.scaleNumbering us).known := by
  have hss : scaleFamilies (c.allUnits us) ss = [] := by
    refine filterMap_eq_nil_iff.mpr fun s hs => ?_
    rw [(h.scales s hs).2]
    split_ifs <;> rfl
  have hscales : scaleFamilies (c.allUnits us) c.restored.scales = (c.scaleNumbering us).known := by
    refine filterMap_map.trans (filterMap_congr fun s _ => ?_)
    show (s.refPoint.bind fun point => (unitFamily? (c.allUnits us) (s.entry c.units)).bind
      fun f => some ((point, f), s.family)) = _
    rw [unitFamily?_entry]
    unfold scaleKey
    cases s.refPoint with
    | none => rfl
    | some point => cases unitFamilyIn c.units s <;> rfl
  unfold scaleFamilies at hss hscales ⊢
  rw [filterMap_append, hss, hscales, append_nil]

/-! ### Numbering -/

theorem lt_of_nextFamily? {next : FamilyId} (h : c.nextFamily? = some next) :
    ∀ f ∈ c.families, f.toNat < next.toNat := by
  intro f hf
  unfold nextFamily? maxFamily? at h
  cases hmax : (c.units.map (·.family) ++ c.scales.map (·.family)).max? with
  | none =>
    have hnil : c.families = [] := max?_eq_none_iff.mp hmax
    rw [hnil] at hf
    cases hf
  | some largest =>
    have hle : f ≤ largest := (max?_le_iff hmax).mp (Nat.le_refl _) f hf
    rw [hmax] at h
    dsimp only at h
    unfold FamilyId.next? at h
    split_ifs at h with hlt
    cases h
    rw [UInt32.toNat_add, UInt32.toNat_one, Nat.mod_eq_of_lt hlt]
    exact Nat.lt_succ_of_le hle

theorem HasRoom.nextFamily {count : Nat} (h : c.HasRoom count) :
    c.nextFamily? = some c.nextFamily ∧ (∀ f ∈ c.families, f.toNat < c.nextFamily.toNat) ∧
      c.nextFamily.toNat + count < UInt32.size := by
  have hnext : c.nextFamily? = some c.nextFamily ∧
      c.nextFamily.toNat + count < UInt32.size := by
    unfold Catalog.nextFamily nextFamily? maxFamily?
    cases hmax : (c.units.map (·.family) ++ c.scales.map (·.family)).max? with
    | none => exact ⟨rfl, by simpa using h.1⟩
    | some largest =>
      have hroom := h.2 largest (max?_mem hmax)
      have hlt : largest.toNat + 1 < UInt32.size := by omega
      have hone : (largest + 1).toNat = largest.toNat + 1 := by
        rw [UInt32.toNat_add, UInt32.toNat_one, Nat.mod_eq_of_lt hlt]
      simp only [FamilyId.next?, if_pos hlt, Option.getD_some, hone]
      exact ⟨trivial, hroom⟩
  exact ⟨hnext.1, lt_of_nextFamily? hnext.1, hnext.2⟩

section Numbered

variable (c : Catalog) (us : List UnitEntry) (ss : List ScaleEntry)

theorem map_fst_unitsNumbered : (c.unitsNumbered us).map (·.1) = us := by
  refine map_fst_zip ?_
  rw [Numbering.length_assign, length_map]

theorem map_fst_scalesNumbered : (c.scalesNumbered us ss).map (·.1) = ss := by
  refine map_fst_zip ?_
  rw [Numbering.length_assign, length_map]

theorem length_allUnits : (c.allUnits us).length = (c.restored.units ++ us).length := by
  have hlength := congrArg List.length (map_fst_unitsNumbered c us)
  rw [length_map] at hlength
  rw [allUnits, length_append, length_append, length_map, hlength]

theorem length_allScales : (c.allScales us ss).length = (c.restored.scales ++ ss).length := by
  have hlength := congrArg List.length (map_fst_scalesNumbered c us ss)
  rw [length_map] at hlength
  rw [allScales, length_append, length_append, length_map, hlength]

end Numbered

theorem isSome_family_allUnits : ∀ u ∈ c.allUnits us, u.family.isSome = true := by
  intro u hu
  rcases mem_append.mp hu with hu | hu
  · obtain ⟨d, -, rfl⟩ := mem_map.mp hu
    rfl
  · obtain ⟨p, -, rfl⟩ := mem_map.mp hu
    rfl

theorem isSome_unitFamily? (h : LateEntries c us ss) (hs : s ∈ ss) :
    (unitFamily? (c.allUnits us) s).isSome = true := by
  obtain ⟨name, i, hi, hfind⟩ := h.unit s hs
  have hlt := getLast?_places_lt hfind
  rw [← length_allUnits] at hlt
  show (s.unit.bind fun i => ((c.allUnits us)[i]?).bind (·.family)).isSome = true
  rw [hi, Option.bind_some, getElem?_eq_getElem hlt]
  exact isSome_family_allUnits _ (getElem_mem hlt)

theorem firstFree_nextFamily {e : Model} (h : e.familyIds = c.families) :
    e.firstFree c.nextFamily = c.nextFamily := by
  have hmax : e.maxFamily? = c.maxFamily? := congrArg List.max? h
  unfold firstFree firstNumber? nextFamily nextFamily?
  rw [hmax]
  cases c.maxFamily? with
  | none => rfl
  | some largest =>
    dsimp only
    cases largest.next? with
    | none => rfl
    | some next => exact Std.max_self

/-- **What becomes of a model with late entries**: they get their families. -/
theorem numbered_late (h : LateEntries c us ss) :
    (c.lateModel us ss).numberedUnits c.nextFamily = c.allUnits us ∧
      (c.lateModel us ss).numberedScales c.nextFamily = c.allScales us ss ∧
      (c.lateModel us ss).openedFamilies c.nextFamily = c.opened us ss := by
  have hwaits : ∀ u ∈ us, u.waits = true := by
    intro u hu
    rw [UnitEntry.waits, (h.units u hu).1, (h.units u hu).2]
    rfl
  have hkept : ∀ u ∈ c.restored.units, u.waits = false := by
    intro u hu
    obtain ⟨d, -, rfl⟩ := mem_map.mp hu
    exact UnitEntry.waits_of_isSome rfl
  have hkeys : (c.lateModel us ss).unitKeys = us.map (·.familyKey) := by
    show ((c.restored.units ++ us).filter (·.waits)).map (·.familyKey) = _
    rw [filter_append, filter_eq_nil_iff.mpr (by simpa using hkept), nil_append,
      filter_eq_self.mpr hwaits]
  have hnumbering : (c.lateModel us ss).unitNumbering c.nextFamily = c.unitNumbering :=
    congrArg₂ Numbering.mk (unitFamilies_late h) (firstFree_nextFamily (familyIds_late h))
  have hunits : (c.lateModel us ss).numberedUnits c.nextFamily = c.allUnits us := by
    unfold numberedUnits
    rw [hnumbering, hkeys]
    refine (fill_append hkept us _).trans (congrArg (_ ++ ·) (fill_eq_zip hwaits ?_))
    rw [Numbering.length_assign, length_map]
  have hwaits' : ∀ s ∈ ss, s.waits (c.allUnits us) = true := by
    intro s hs
    rw [ScaleEntry.waits, (h.scales s hs).1, (h.scales s hs).2, isSome_unitFamily? h hs]
    rfl
  have hkept' : ∀ s ∈ c.restored.scales, s.waits (c.allUnits us) = false := by
    intro s hs
    obtain ⟨d, -, rfl⟩ := mem_map.mp hs
    exact ScaleEntry.waits_of_isSome rfl _
  have hkeys' : (c.lateModel us ss).scaleKeys c.nextFamily =
      ss.map (·.familyKey (c.allUnits us)) := by
    unfold scaleKeys
    rw [hunits]
    show ((c.restored.scales ++ ss).filter (·.waits (c.allUnits us))).map _ = _
    rw [filter_append, filter_eq_nil_iff.mpr (by simpa using hkept'), nil_append,
      filter_eq_self.mpr hwaits']
  have hnumbering' : (c.lateModel us ss).scaleNumbering c.nextFamily = c.scaleNumbering us := by
    unfold Model.scaleNumbering
    rw [hunits, hnumbering, hkeys]
    exact congrArg (Numbering.mk · _) (scaleFamilies_late h)
  refine ⟨hunits, ?_, ?_⟩
  · unfold numberedScales
    rw [hnumbering', hkeys', hunits]
    refine (fill_append hkept' ss _).trans (congrArg (_ ++ ·) (fill_eq_zip hwaits' ?_))
    rw [Numbering.length_assign, length_map]
  · rw [openedFamilies, hnumbering, hkeys, hnumbering', hkeys']
    rfl

theorem hasRoom_late (h : LateEntries c us ss) :
    (c.lateModel us ss).HasRoom c.nextFamily ↔ c.HasRoom (c.opened us ss) := by
  rw [Model.HasRoom, (numbered_late h).2.2, familyIds_late h]
  constructor
  · rintro ⟨hroom, hrooms⟩
    exact ⟨by omega, hrooms⟩
  · exact fun hroom => ⟨hroom.nextFamily.2.2, hroom.2⟩

/-! ### Descriptors of late entries -/

/-- The descriptors of late units in their families. -/
def lateUnits (c : Catalog) (module : String) (us : List UnitEntry) : List UnitDescriptor :=
  (c.unitsNumbered us).map fun p => p.1.descriptor module p.2

/-- The descriptors of late scales in their families. -/
def lateScales (c : Catalog) (module : String) (us : List UnitEntry) (ss : List ScaleEntry) :
    List ScaleDescriptor :=
  (c.scalesNumbered us ss).filterMap fun p =>
    (p.1.inFamily p.2).describe? (c.lateModel us ss) module

/-- The descriptor is of the unit, which belongs to the module unless it was loaded before. -/
structure Describes (module : String) (e : UnitEntry) (d : UnitDescriptor) : Prop where
  name : d.name = e.name
  module : d.module = e.origin.module?.getD module
  kind : d.kind = e.kind

/-- **The unit of a scale is found by its name and module**: it is the last one of its name. -/
theorem find?_owns {units : List UnitDescriptor} (h : List.Forall₂ (Describes module) entries units)
    (hfind : findUnit? { units := entries } name = some i) (he : entries[i]? = some e)
    (s : ScaleEntry) (f : FamilyId) :
    ∃ d, units[i]? = some d ∧ Describes module e d ∧
      units.reverse.find? (s.descriptor module e f).owns = some d := by
  have hnames : units.map (·.name) = entries.map (·.name) := by
    rw [← forall₂_eq_eq_eq, forall₂_map_left_iff, forall₂_map_right_iff]
    exact h.flip.imp fun d e hd => hd.name
  obtain ⟨hi, rfl⟩ := List.getElem?_eq_some_iff.mp he
  have hi' : i < units.length := h.length_eq ▸ hi
  have hd := getElem?_eq_getElem hi'
  have hdescribes : Describes module entries[i] units[i] := h.get hi hi'
  refine ⟨units[i], hd, hdescribes, ?_⟩
  have hlast : (places units (·.name = name)).getLast? = some i := by
    rw [← hfind, findUnit?, ← places_map UnitDescriptor.name _ (· = name), hnames, places_map]
  obtain ⟨e', he', hname⟩ := mem_places.mp (mem_of_getLast? hfind)
  rw [he] at he'
  cases he'
  have howns : (places units (s.descriptor module entries[i] f).owns).getLast? = some i := by
    refine getLast?_places_of_imp hlast hd ?_ fun u hu => ?_
    · simp only [ScaleDescriptor.owns, ScaleEntry.descriptor, hdescribes.name, hdescribes.module,
        decide_true, Bool.and_self]
    · simp only [ScaleDescriptor.owns, ScaleEntry.descriptor, Bool.and_eq_true] at hu hname ⊢
      rw [of_decide_eq_true hu.2, hname]
  rw [find?_reverse_eq, howns, Option.bind_some, hd]

theorem describes_append (c : Catalog)
    (h : List.Forall₂ (fun u d => ∃ f, d = u.descriptor module f) us ds)
    (hus : ∀ u ∈ us, u.origin.module? = none) :
    List.Forall₂ (Describes module) (c.restored.units ++ us) (c.units ++ ds) := by
  refine rel_append ?_ ?_
  · refine forall₂_map_left_iff.mpr (forall₂_same.mpr fun d _ => ?_)
    exact ⟨rfl, rfl, rfl⟩
  · refine forall₂_iff_zip.mpr ⟨h.length_eq, ?_⟩
    intro u d hud
    obtain ⟨f, rfl⟩ := forall₂_zip h hud
    refine ⟨rfl, ?_, rfl⟩
    rw [hus u (of_mem_zip hud).1]
    rfl

theorem forall₂_filterMap {f : α → Option β} (h : ∀ x ∈ xs, (f x).isSome = true) :
    List.Forall₂ (fun x y => f x = some y) xs (xs.filterMap f) := by
  induction xs with
  | nil => exact .nil
  | cons x xs ih =>
    obtain ⟨hx, hxs⟩ := forall_mem_cons.mp h
    obtain ⟨y, hy⟩ := Option.isSome_iff_exists.mp hx
    rw [filterMap_cons_some hy]
    exact .cons hy (ih hxs)

theorem forall₂_lateUnits (c : Catalog) (module : String) (us : List UnitEntry) :
    List.Forall₂ (fun u d => ∃ f, d = u.descriptor module f) us (c.lateUnits module us) := by
  refine UnitEntry.forall₂_descriptor ?_ module
  rw [Numbering.length_assign, length_map]

theorem map_family_allUnits (c : Catalog) (module : String) (us : List UnitEntry) :
    (c.allUnits us).map (·.family) =
      (c.units ++ c.lateUnits module us).map fun d => some d.family := by
  rw [allUnits, restored, lateUnits, map_append, map_append, map_map, map_map,
    map_map]
  rfl

section Late

variable (h : LateEntries c us ss) (module : String)
include h

theorem unitFamilyIn_late (hs : s ∈ ss) (hi : s.unit = some i)
    (he : (c.restored.units ++ us)[i]? = some e) (f : FamilyId) :
    unitFamilyIn (c.units ++ c.lateUnits module us) (s.descriptor module e f) =
      unitFamily? (c.allUnits us) s := by
  obtain ⟨name, j, hj, hfind⟩ := h.unit s hs
  rw [hi] at hj
  cases hj
  obtain ⟨d, hd, -, howns⟩ :=
    find?_owns (describes_append c (forall₂_lateUnits c module us) h.declared) hfind he s f
  have hfamily := congrArg (·[i]?) (map_family_allUnits c module us)
  simp only [getElem?_map, hd] at hfamily
  obtain ⟨u, hu, huf⟩ := Option.map_eq_some_iff.mp hfamily
  unfold unitFamilyIn
  rw [howns]
  show some d.family = s.unit.bind fun i => ((c.allUnits us)[i]?).bind (·.family)
  rw [hi, Option.bind_some, hu, Option.bind_some, huf]

theorem describe?_late (hp : p ∈ c.scalesNumbered us ss) :
    ∃ i e, p.1.unit = some i ∧ (c.restored.units ++ us)[i]? = some e ∧
      (p.1.inFamily p.2).describe? (c.lateModel us ss) module =
        some (p.1.descriptor module e p.2) := by
  have hs : p.1 ∈ ss := map_fst_scalesNumbered c us ss ▸ mem_map_of_mem hp
  obtain ⟨name, i, hi, hfind⟩ := h.unit p.1 hs
  have hlt := getLast?_places_lt hfind
  have he := getElem?_eq_getElem hlt
  exact ⟨i, _, hi, he, ScaleEntry.describe?_inFamily (h.scales p.1 hs).1 hi he module p.2⟩

theorem forall₂_lateScales :
    List.Forall₂ (fun p t => (p.1.inFamily p.2).describe? (c.lateModel us ss) module = some t)
      (c.scalesNumbered us ss) (c.lateScales module us ss) := by
  refine forall₂_filterMap fun p hp => ?_
  obtain ⟨i, e, -, -, hd⟩ := describe?_late h module hp
  rw [hd]
  rfl

/-- Late units share with their families what their descriptors do. -/
theorem map_unitKey_lateUnits :
    (c.lateUnits module us).map (fun u => (c.unitKey u, u.family)) =
      (us.map (·.familyKey)).zip (c.unitNumbering.assign (us.map (·.familyKey))).1 := by
  have hkey : ∀ p ∈ c.unitsNumbered us,
      c.unitKey (p.1.descriptor module p.2) = p.1.familyKey := by
    intro p hp
    have hmem : p.1 ∈ us := map_fst_unitsNumbered c us ▸ mem_map_of_mem hp
    unfold unitKey UnitEntry.familyKey
    rw [h.redeclared p.1 hmem]
    rfl
  rw [lateUnits, map_map, zip_map_left]
  refine map_congr_left fun p hp => ?_
  exact congrArg (·, p.2) (hkey p hp)

/-- Late scales share with their families what their descriptors do. -/
theorem map_scaleKey_lateScales :
    (c.lateScales module us ss).map
        (fun t => (scaleKey (c.units ++ c.lateUnits module us) t, t.family)) =
      (ss.map (·.familyKey (c.allUnits us))).zip
        ((c.scaleNumbering us).assign (ss.map (·.familyKey (c.allUnits us)))).1 := by
  rw [zip_map_left, ← forall₂_eq_eq_eq, forall₂_map_left_iff,
    forall₂_map_right_iff]
  refine List.Forall₂.flip (forall₂_iff_zip.mpr ⟨(forall₂_lateScales h module).length_eq, ?_⟩)
  intro p t hpt
  have hp : p ∈ c.scalesNumbered us ss := (of_mem_zip hpt).1
  have hs : p.1 ∈ ss := map_fst_scalesNumbered c us ss ▸ mem_map_of_mem hp
  obtain ⟨i, e, hi, he, hd⟩ := describe?_late h module hp
  rw [forall₂_zip (forall₂_lateScales h module) hpt] at hd
  cases hd
  refine congrArg (·, p.2) ?_
  unfold scaleKey ScaleEntry.familyKey
  rw [unitFamilyIn_late h module hs hi he]
  rfl

variable (hroom : c.HasRoom (c.opened us ss))

omit h in
include hroom in
/-- Late scales are numbered from the first number behind the late units. -/
theorem toNat_next_scaleNumbering :
    (c.scaleNumbering us).next.toNat =
      c.nextFamily.toNat + c.unitNumbering.opened (us.map (·.familyKey)) := by
  obtain ⟨-, -, hsize⟩ := hroom.nextFamily
  unfold opened at hsize
  refine Numbering.toNat_next_assign ?_
  show c.nextFamily.toNat + _ < _
  omega

include hroom

/-- Late units are numbered from the first number behind the catalog. -/
theorem assigned_lateUnits :
    Numbering.Assigned c.unitNumbering (c.scaleNumbering us).next.toNat
      ((c.lateUnits module us).map fun u => (c.unitKey u, u.family)) := by
  have hlimit := toNat_next_scaleNumbering hroom
  have hlt := (c.scaleNumbering us).next.toNat_lt_size
  rw [map_unitKey_lateUnits h module, hlimit]
  refine Numbering.assigned_assign (n := c.unitNumbering) ?_
  show c.nextFamily.toNat + _ < _
  omega

theorem assigned_lateScales :
    Numbering.Assigned (c.scaleNumbering us)
      ((c.scaleNumbering us).next.toNat +
        (c.scaleNumbering us).opened (ss.map (·.familyKey (c.allUnits us))))
      ((c.lateScales module us ss).map
        fun s => (scaleKey (c.units ++ c.lateUnits module us) s, s.family)) := by
  obtain ⟨-, -, hsize⟩ := hroom.nextFamily
  have hnext := toNat_next_scaleNumbering hroom
  unfold opened at hsize
  rw [map_scaleKey_lateScales h module]
  exact Numbering.assigned_assign (by omega)

theorem nextFamily_le_of_lateUnit (hu : u ∈ c.lateUnits module us)
    (hnew : (c.unitKey u).bind c.unitNumber = none) : c.nextFamily.toNat ≤ u.family.toNat := by
  rw [← get?_unitNumbering] at hnew
  have hp := mem_map_of_mem (f := fun u => (c.unitKey u, u.family)) hu
  exact ((assigned_lateUnits h module hroom).new _ hp hnew).1

theorem nextFamily_le_of_lateScale (hs : s ∈ c.lateScales module us ss)
    (hnew : (scaleKey (c.units ++ c.lateUnits module us) s).bind c.scaleNumber = none) :
    c.nextFamily.toNat ≤ s.family.toNat := by
  rw [← get?_scaleNumbering c us] at hnew
  have hp := mem_map_of_mem
    (f := fun s => (scaleKey (c.units ++ c.lateUnits module us) s, s.family)) hs
  have hnext := toNat_next_scaleNumbering hroom
  have hge := ((assigned_lateScales h module hroom).new _ hp hnew).1
  dsimp only at hge
  omega

/-- The numbers of late scales are behind those of the catalog and of the late units. -/
theorem lt_next_scaleNumbering (hf : f ∈ c.families ++ (c.lateUnits module us).map (·.family)) :
    f.toNat < (c.scaleNumbering us).next.toNat := by
  obtain ⟨-, hlt, -⟩ := hroom.nextFamily
  have hunits := assigned_lateUnits h module hroom
  have hnext := toNat_next_scaleNumbering hroom
  have hle : c.nextFamily.toNat ≤ (c.scaleNumbering us).next.toNat := by omega
  rcases mem_append.mp hf with hf | hf
  · exact Nat.lt_of_lt_of_le (hlt f hf) hle
  · obtain ⟨u, hu, rfl⟩ := mem_map.mp hf
    have hp := mem_map_of_mem (f := fun u => (c.unitKey u, u.family)) hu
    cases hn : (c.unitKey u).bind c.unitNumbering.get? with
    | none => exact (hunits.new _ hp hn).2
    | some g =>
      have heq : u.family = g := hunits.known _ hp g hn
      obtain ⟨dimension, -, hg⟩ := Option.bind_eq_some_iff.mp hn
      rw [get?_unitNumbering] at hg
      rw [heq]
      exact Nat.lt_of_lt_of_le (hlt g (mem_families_of_unitNumber hg)) hle

/-- **Late entries get into the families they belong to.** -/
theorem familiesFit_late : c.FamiliesFit (c.lateUnits module us) (c.lateScales module us ss) where
  units := get?_unitNumbering c ▸
    (assigned_lateUnits h module hroom).numbered hroom.nextFamily.2.1
  scales := get?_scaleNumbering c us ▸
    (assigned_lateScales h module hroom).numbered fun _ => lt_next_scaleNumbering h module hroom

end Late

end Catalog

end Quantity
