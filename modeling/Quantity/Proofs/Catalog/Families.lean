import Quantity.Proofs.Catalog.Restored
import Quantity.Proofs.Model.Numbering

/-!
# Families of a module that is added to a catalog

The families that a module adds to a catalog are numbered when it is compiled. Two modules with
the same entries leave the same catalog, up to these numbers, exactly if both have the families
that their entries belong to (`agreeAfter_append_iff`).
-/

namespace Quantity

open Model List

/-! ### Renumbering -/

/-- The unit with another number of its family. -/
def UnitDescriptor.renumber (ρ : FamilyId → FamilyId) (u : UnitDescriptor) : UnitDescriptor :=
  { u with family := ρ u.family }

/-- The scale with another number of its family. -/
def ScaleDescriptor.renumber (ρ : FamilyId → FamilyId) (s : ScaleDescriptor) : ScaleDescriptor :=
  { s with family := ρ s.family }

namespace Catalog

def families (c : Catalog) : List FamilyId := c.units.map (·.family) ++ c.scales.map (·.family)

/-- The catalog with other numbers of its families. -/
def renumber (ρ : FamilyId → FamilyId) (c : Catalog) : Catalog :=
  { c with units := c.units.map (·.renumber ρ), scales := c.scales.map (·.renumber ρ) }

/-- **Two catalogs agree up to the numbers of families that are new after `c`.** -/
def AgreeAfter (c x y : Catalog) : Prop :=
  ∃ ρ : FamilyId → FamilyId, Set.InjOn ρ {f | f ∈ x.families} ∧ (∀ f ∈ c.families, ρ f = f) ∧
    x.renumber ρ = y

/-! ### Families that entries belong to -/

/-- What a new unit shares with its family: its dimension, unless the name is known. -/
def unitKey (c : Catalog) (u : UnitDescriptor) : Option Dimension :=
  if c.units.any (·.name = u.name) then none else some u.dimension

/-- The family of a dimension: that of its first unit. -/
def unitNumber (c : Catalog) (dimension : Dimension) : Option FamilyId :=
  (c.units.find? (·.dimension = dimension)).map (·.family)

def unitFamilyIn (units : List UnitDescriptor) (s : ScaleDescriptor) : Option FamilyId :=
  (units.reverse.find? s.owns).map (·.family)

/-- What a scale shares with its family: its point of reference and the family of its unit. -/
def scaleKey (units : List UnitDescriptor) (s : ScaleDescriptor) : Option (String × FamilyId) :=
  s.refPoint.bind fun point => (unitFamilyIn units s).map (point, ·)

/-- The family of a point of reference over a family of units: that of its first scale. -/
def scaleNumber (c : Catalog) (key : String × FamilyId) : Option FamilyId :=
  (c.scales.find? fun s => scaleKey c.units s = some key).map (·.family)

/-- **New entries have the families they belong to**: those of the catalog that share their keys,
or else new ones. -/
structure FamiliesFit (c : Catalog) (us : List UnitDescriptor) (ss : List ScaleDescriptor) :
    Prop where
  units : Numbered c.families c.unitNumber (us.map fun u => (c.unitKey u, u.family))
  scales : Numbered (c.families ++ us.map (·.family)) c.scaleNumber
    (ss.map fun s => (scaleKey (c.units ++ us) s, s.family))

end Catalog

/-! ### The same entries -/

/-- Two units are the same apart from the numbers of their families. -/
def UnitDescriptor.Same (u v : UnitDescriptor) : Prop := u.renumber (fun _ => v.family) = v

/-- Two scales are the same apart from the numbers of their families. -/
def ScaleDescriptor.Same (s t : ScaleDescriptor) : Prop := s.renumber (fun _ => t.family) = t

/-- Two modules have the same entries apart from the numbers of their families. -/
structure LoadedModule.SameEntries (a b : LoadedModule) : Prop where
  name : a.name = b.name
  units : List.Forall₂ UnitDescriptor.Same a.units b.units
  scales : List.Forall₂ ScaleDescriptor.Same a.scales b.scales

theorem UnitDescriptor.renumber_eq_iff {u v : UnitDescriptor} :
    u.renumber ρ = v ↔ u.Same v ∧ ρ u.family = v.family := by
  constructor
  · rintro rfl
    exact ⟨rfl, rfl⟩
  · rintro ⟨hsame, hfamily⟩
    refine Eq.trans ?_ hsame
    unfold renumber
    rw [hfamily]

theorem ScaleDescriptor.renumber_eq_iff {s t : ScaleDescriptor} :
    s.renumber ρ = t ↔ s.Same t ∧ ρ s.family = t.family := by
  constructor
  · rintro rfl
    exact ⟨rfl, rfl⟩
  · rintro ⟨hsame, hfamily⟩
    refine Eq.trans ?_ hsame
    unfold renumber
    rw [hfamily]

/-- Entries are renumbered to others if they are the same and their numbers go over. -/
theorem map_eq_iff_forall₂ {α : Type} {f : α → α} {R : α → α → Prop} {g : α → FamilyId}
    {ρ : FamilyId → FamilyId} (h : ∀ {x y}, f x = y ↔ R x y ∧ ρ (g x) = g y) {xs ys : List α} :
    xs.map f = ys ↔
      List.Forall₂ R xs ys ∧ ∀ p ∈ (xs.zip ys).map fun e => (g e.1, g e.2), ρ p.1 = p.2 := by
  induction xs generalizing ys with
  | nil =>
    rw [forall₂_nil_left_iff, eq_comm]
    exact ⟨fun h => ⟨h, nofun⟩, And.left⟩
  | cons x xs ih =>
    cases ys with
    | nil => exact iff_of_false nofun nofun
    | cons y ys =>
      rw [map_cons, List.cons.injEq, h, ih, forall₂_cons, zip_cons_cons, map_cons,
        forall_mem_cons]
      tauto

namespace Catalog

section Agree

variable {c : Catalog} {us vs : List UnitDescriptor} {ss ts : List ScaleDescriptor}

/-- The families of a catalog with units side by side. -/
def unitPairs (c : Catalog) (us vs : List UnitDescriptor) : List (FamilyId × FamilyId) :=
  c.families.map (fun f => (f, f)) ++ (us.zip vs).map fun e => (e.1.family, e.2.family)

theorem matching_families (c : Catalog) : Matching (c.families.map fun f => (f, f)) := by
  intro p hp q hq
  obtain ⟨f, -, rfl⟩ := mem_map.mp hp
  obtain ⟨g, -, rfl⟩ := mem_map.mp hq
  exact Iff.rfl

theorem mem_families_of_unitNumber (h : c.unitNumber dimension = some f) : f ∈ c.families := by
  obtain ⟨u, hu, rfl⟩ := Option.map_eq_some_iff.mp h
  exact mem_append_left _ (mem_map_of_mem (mem_of_find?_eq_some hu))

theorem mem_families_of_scaleNumber (h : c.scaleNumber key = some f) : f ∈ c.families := by
  obtain ⟨s, hs, rfl⟩ := Option.map_eq_some_iff.mp h
  exact mem_append_right _ (mem_map_of_mem (mem_of_find?_eq_some hs))

theorem dimension_of_unitKey (h : c.unitKey u = some dimension) : u.dimension = dimension := by
  unfold unitKey at h
  split_ifs at h
  exact Option.some.inj h

/-- A unit whose dimension has a family: some unit of the catalog is in it. -/
theorem exists_unit_of_unitNumber (h : (c.unitKey u).bind c.unitNumber = some f) :
    ∃ v ∈ c.units, v.family = f ∧ v.dimension = u.dimension := by
  obtain ⟨dimension, hkey, hf⟩ := Option.bind_eq_some_iff.mp h
  obtain ⟨v, hv, rfl⟩ := Option.map_eq_some_iff.mp hf
  have hvdimension : v.dimension = dimension := by simpa using find?_some hv
  exact ⟨v, mem_of_find?_eq_some hv, rfl, hvdimension.trans (dimension_of_unitKey hkey).symm⟩

/-- A scale whose key has a family: some scale of the catalog with that key is in it. -/
theorem exists_scale_of_scaleNumber (h : key.bind c.scaleNumber = some f) :
    ∃ t ∈ c.scales, t.family = f ∧ scaleKey c.units t = key ∧ key.isSome = true := by
  obtain ⟨key, rfl, hf⟩ := Option.bind_eq_some_iff.mp h
  obtain ⟨t, ht, rfl⟩ := Option.map_eq_some_iff.mp hf
  have htkey : scaleKey c.units t = some key := by simpa using find?_some ht
  exact ⟨t, mem_of_find?_eq_some ht, rfl, htkey, rfl⟩

theorem unitKey_eq (h : u.Same v) : c.unitKey u = c.unitKey v := by
  rw [← h]
  rfl

theorem compatible_units (h : List.Forall₂ UnitDescriptor.Same us vs) :
    Compatible c.unitNumber (c.families.map fun f => (f, f))
      ((us.zip vs).map fun e => ((c.unitKey e.1, e.1.family), (c.unitKey e.2, e.2.family))) := by
  constructor
  · intro z hz
    obtain ⟨e, he, rfl⟩ := mem_map.mp hz
    rw [unitKey_eq (forall₂_zip h he)]
    cases hn : (c.unitKey e.2).bind c.unitNumber with
    | none => exact .inl ⟨rfl, rfl⟩
    | some f =>
      obtain ⟨dimension, -, hf⟩ := Option.bind_eq_some_iff.mp hn
      exact .inr ⟨(f, f), mem_map_of_mem (mem_families_of_unitNumber hf), rfl, rfl⟩
  · intro z hz w hw
    obtain ⟨e, he, rfl⟩ := mem_map.mp hz
    obtain ⟨e', he', rfl⟩ := mem_map.mp hw
    rw [unitKey_eq (forall₂_zip h he), unitKey_eq (forall₂_zip h he')]

theorem map_fst_families (c : Catalog) : (c.families.map fun f => (f, f)).map (·.1) = c.families :=
  map_map.trans (map_id _)

theorem map_snd_families (c : Catalog) : (c.families.map fun f => (f, f)).map (·.2) = c.families :=
  map_map.trans (map_id _)

/-- Units side by side with units of the right families are in the right families exactly if
they share them alike. -/
theorem units_iff_matching (h : List.Forall₂ UnitDescriptor.Same us vs)
    (hvs : Numbered c.families c.unitNumber (vs.map fun u => (c.unitKey u, u.family))) :
    Numbered c.families c.unitNumber (us.map fun u => (c.unitKey u, u.family)) ↔
      Matching (c.unitPairs us vs) := by
  have hiff := (compatible_units h).numbered_map_iff_matching (fun u => (c.unitKey u, u.family))
    (fun u => (c.unitKey u, u.family)) h.length_eq c.matching_families
    (by rw [map_snd_families]; exact hvs)
  rw [map_fst_families] at hiff
  exact hiff

theorem find?_forall₂ (h : List.Forall₂ R xs ys) (hp : ∀ x y, R x y → p x = p y) :
    xs.find? p = none ∧ ys.find? p = none ∨
      ∃ x y, R x y ∧ xs.find? p = some x ∧ ys.find? p = some y := by
  induction h with
  | nil => exact .inl ⟨rfl, rfl⟩
  | @cons x y xs ys hxy _ ih =>
    have hy := hp x y hxy
    cases hx : p x with
    | true =>
      rw [hx] at hy
      exact .inr ⟨x, y, hxy, find?_cons_of_pos hx, find?_cons_of_pos hy.symm⟩
    | false =>
      rw [hx] at hy
      rw [find?_cons_of_neg (Bool.eq_false_iff.mp hx),
        find?_cons_of_neg (Bool.eq_false_iff.mp hy.symm)]
      exact ih

theorem forall₂_units (h : List.Forall₂ UnitDescriptor.Same us vs) :
    List.Forall₂ (fun u v => u.Same v ∧ (u.family, v.family) ∈ c.unitPairs us vs) (c.units ++ us)
      (c.units ++ vs) := by
  refine rel_append ?_ (forall₂_iff_zip.mpr ⟨h.length_eq, fun {u v} he => ⟨?_, ?_⟩⟩)
  · refine forall₂_same.mpr fun u hu => ⟨rfl, mem_append_left _ ?_⟩
    exact mem_map_of_mem (mem_append_left _ (mem_map_of_mem hu))
  · exact forall₂_zip h he
  · exact mem_append_right _ (mem_map.mpr ⟨(u, v), he, rfl⟩)

theorem unitFamilyIn_cases (h : List.Forall₂ UnitDescriptor.Same us vs) (s : ScaleDescriptor) :
    unitFamilyIn (c.units ++ us) s = none ∧ unitFamilyIn (c.units ++ vs) s = none ∨
      ∃ p ∈ c.unitPairs us vs, unitFamilyIn (c.units ++ us) s = some p.1 ∧
        unitFamilyIn (c.units ++ vs) s = some p.2 := by
  unfold unitFamilyIn
  rcases find?_forall₂ (p := s.owns) (forall₂_reverse_iff.mpr (forall₂_units h))
      (fun u v huv => by rw [← huv.1]; rfl) with
    ⟨hnone, hnone'⟩ | ⟨u, v, ⟨-, hmem⟩, hu, hv⟩
  · rw [hnone, hnone']
    exact .inl ⟨rfl, rfl⟩
  · rw [hu, hv]
    exact .inr ⟨_, hmem, rfl, rfl⟩

/-- The keys of scales side by side: points of reference over families side by side. -/
theorem scaleKey_cases (h : List.Forall₂ UnitDescriptor.Same us vs) (hst : s.Same t) :
    scaleKey (c.units ++ us) s = none ∧ scaleKey (c.units ++ vs) t = none ∨
      ∃ point, ∃ p ∈ c.unitPairs us vs, scaleKey (c.units ++ us) s = some (point, p.1) ∧
        scaleKey (c.units ++ vs) t = some (point, p.2) := by
  have ht : scaleKey (c.units ++ vs) t = scaleKey (c.units ++ vs) s := by
    rw [← hst]
    rfl
  rw [ht]
  unfold scaleKey
  cases s.refPoint with
  | none => exact .inl ⟨rfl, rfl⟩
  | some point =>
    rcases unitFamilyIn_cases (c := c) h s with ⟨hnone, hnone'⟩ | ⟨p, hp, hsome, hsome'⟩
    · rw [hnone, hnone']
      exact .inl ⟨rfl, rfl⟩
    · rw [hsome, hsome']
      exact .inr ⟨point, p, hp, rfl, rfl⟩

theorem mem_families_of_scaleNumber_key (h : c.scaleNumber (point, f) = some g) :
    f ∈ c.families := by
  obtain ⟨s, hs, -⟩ := Option.map_eq_some_iff.mp h
  have hkey : scaleKey c.units s = some (point, f) := by simpa using find?_some hs
  obtain ⟨_, -, hf⟩ := Option.bind_eq_some_iff.mp hkey
  obtain ⟨_, hf, heq⟩ := Option.map_eq_some_iff.mp hf
  cases heq
  obtain ⟨u, hu, rfl⟩ := Option.map_eq_some_iff.mp hf
  have hmem := mem_reverse.mp (mem_of_find?_eq_some hu)
  exact mem_append_left _ (mem_map_of_mem hmem)

theorem eq_of_mem_families (hm : Matching (c.unitPairs us vs)) (hp : p ∈ c.unitPairs us vs)
    (h : p.1 ∈ c.families ∨ p.2 ∈ c.families) : p.1 = p.2 := by
  have hmem {f : FamilyId} (hf : f ∈ c.families) : (f, f) ∈ c.unitPairs us vs :=
    mem_append_left _ (mem_map_of_mem hf)
  rcases h with hf | hf
  · exact (hm _ (hmem hf) p hp).mp rfl
  · exact (hm p hp _ (hmem hf)).mpr rfl

theorem scaleNumber_eq (hm : Matching (c.unitPairs us vs)) (hp : p ∈ c.unitPairs us vs)
    (point : String) : c.scaleNumber (point, p.1) = c.scaleNumber (point, p.2) := by
  cases h₁ : c.scaleNumber (point, p.1) with
  | some f =>
    rw [← h₁, eq_of_mem_families hm hp (.inl (mem_families_of_scaleNumber_key h₁))]
  | none =>
    cases h₂ : c.scaleNumber (point, p.2) with
    | none => rfl
    | some g =>
      rw [← eq_of_mem_families hm hp (.inr (mem_families_of_scaleNumber_key h₂)), h₁] at h₂
      cases h₂

theorem compatible_scales (hm : Matching (c.unitPairs us vs))
    (h : List.Forall₂ UnitDescriptor.Same us vs) (hs : List.Forall₂ ScaleDescriptor.Same ss ts) :
    Compatible c.scaleNumber (c.unitPairs us vs) ((ss.zip ts).map fun e =>
      ((scaleKey (c.units ++ us) e.1, e.1.family), (scaleKey (c.units ++ vs) e.2, e.2.family))) := by
  constructor
  · intro z hz
    obtain ⟨e, he, rfl⟩ := mem_map.mp hz
    rcases scaleKey_cases (c := c) h (forall₂_zip hs he) with
      ⟨hnone, hnone'⟩ | ⟨point, p, hp, hsome, hsome'⟩
    · dsimp only
      rw [hnone, hnone']
      exact .inl ⟨rfl, rfl⟩
    · dsimp only
      rw [hsome, hsome', Option.bind_some, Option.bind_some, scaleNumber_eq hm hp]
      cases hn : c.scaleNumber (point, p.2) with
      | none => exact .inl ⟨rfl, rfl⟩
      | some f =>
        refine .inr ⟨(f, f), mem_append_left _ ?_, rfl, rfl⟩
        exact mem_map_of_mem (mem_families_of_scaleNumber hn)
  · intro z hz w hw
    obtain ⟨e, he, rfl⟩ := mem_map.mp hz
    obtain ⟨e', he', rfl⟩ := mem_map.mp hw
    rcases scaleKey_cases (c := c) h (forall₂_zip hs he) with
      ⟨hnone, hnone'⟩ | ⟨point, p, hp, hsome, hsome'⟩
    · rw [hnone, hnone']
      exact iff_of_false (fun h => Bool.noConfusion h.1) fun h => Bool.noConfusion h.1
    · rcases scaleKey_cases (c := c) h (forall₂_zip hs he') with
        ⟨hnone, hnone'⟩ | ⟨point', p', hp', hsome₁, hsome₁'⟩
      · rw [hsome, hsome', hnone, hnone']
        exact iff_of_false (fun h => nomatch h.2) fun h => nomatch h.2
      · rw [hsome, hsome', hsome₁, hsome₁']
        simp only [Option.isSome_some, Option.some.injEq, Prod.mk.injEq, hm p hp p' hp']

theorem map_fst_unitPairs (h : us.length = vs.length) :
    (c.unitPairs us vs).map (·.1) = c.families ++ us.map (·.family) := by
  unfold unitPairs
  rw [map_append, map_fst_families, map_map]
  conv_rhs => rw [← map_fst_zip h.le, map_map]
  rfl

theorem map_snd_unitPairs (h : us.length = vs.length) :
    (c.unitPairs us vs).map (·.2) = c.families ++ vs.map (·.family) := by
  unfold unitPairs
  rw [map_append, map_snd_families, map_map]
  conv_rhs => rw [← map_snd_zip h.ge, map_map]
  rfl

/-- The families of a catalog with the entries of two modules side by side. -/
def pairs (c : Catalog) (a b : LoadedModule) : List (FamilyId × FamilyId) :=
  c.unitPairs a.units b.units ++ (a.scales.zip b.scales).map fun e => (e.1.family, e.2.family)

/-- **Entries beside entries of the right families are in the right families exactly if they
share them alike.** -/
theorem familiesFit_iff_matching (h : a.SameEntries b) (hb : c.FamiliesFit b.units b.scales) :
    c.FamiliesFit a.units a.scales ↔ Matching (c.pairs a b) := by
  have hunits := units_iff_matching h.units hb.units
  have hscales (hm : Matching (c.unitPairs a.units b.units)) :=
    (compatible_scales hm h.units h.scales).numbered_map_iff_matching
      (fun s => (scaleKey (c.units ++ a.units) s, s.family))
      (fun s => (scaleKey (c.units ++ b.units) s, s.family)) h.scales.length_eq hm
      (by rw [map_snd_unitPairs h.units.length_eq]; exact hb.scales)
  rw [map_fst_unitPairs h.units.length_eq] at hscales
  constructor
  · intro ha
    have hm := hunits.mp ha.units
    exact (hscales hm).mp ha.scales
  · intro hm
    have hm' : Matching (c.unitPairs a.units b.units) := Matching.of_append hm
    exact ⟨hunits.mpr hm', (hscales hm').mpr hm⟩

theorem mem_pairs_of_append (h : a.SameEntries b) :
    f ∈ (c.pairs a b).map (·.1) ↔ f ∈ (c.append a).families := by
  have hscales : ((a.scales.zip b.scales).map fun e => (e.1.family, e.2.family)).map (·.1) =
      a.scales.map (·.family) := by
    conv_rhs => rw [← map_fst_zip h.scales.length_eq.le]
    rw [map_map, map_map]
    rfl
  unfold pairs append families
  rw [map_append, map_fst_unitPairs h.units.length_eq, hscales]
  simp only [families, map_append, mem_append]
  tauto

/-- A renumbering that keeps the families of the catalog takes a module to another one if that has
the same entries and the numbers go over. -/
theorem renumber_append_eq_iff (hfix : ∀ f ∈ c.families, ρ f = f) :
    (c.append a).renumber ρ = c.append b ↔ a.SameEntries b ∧ ∀ p ∈ c.pairs a b, ρ p.1 = p.2 := by
  have hunits : c.units.map (·.renumber ρ) = c.units := by
    refine (map_congr_left fun u hu => ?_).trans (map_id _)
    have hfamily := hfix u.family (mem_append_left _ (mem_map_of_mem hu))
    rw [UnitDescriptor.renumber, hfamily, id]
  have hscales : c.scales.map (·.renumber ρ) = c.scales := by
    refine (map_congr_left fun s hs => ?_).trans (map_id _)
    have hfamily := hfix s.family (mem_append_right _ (mem_map_of_mem hs))
    rw [ScaleDescriptor.renumber, hfamily, id]
  have hsame : a.SameEntries b ↔ a.name = b.name ∧ List.Forall₂ UnitDescriptor.Same a.units b.units ∧
      List.Forall₂ ScaleDescriptor.Same a.scales b.scales :=
    ⟨fun h => ⟨h.name, h.units, h.scales⟩, fun h => ⟨h.1, h.2.1, h.2.2⟩⟩
  have hfamilies : ∀ p ∈ c.families.map fun f => (f, f), ρ p.1 = p.2 :=
    forall_mem_map.mpr hfix
  unfold append renumber pairs unitPairs
  rw [forall_mem_append, forall_mem_append]
  simp only [map_append, hunits, hscales, Catalog.mk.injEq, append_cancel_left_eq,
    List.cons.injEq, map_eq_iff_forall₂ UnitDescriptor.renumber_eq_iff,
    map_eq_iff_forall₂ ScaleDescriptor.renumber_eq_iff]
  tauto

/-- **A module leaves the same catalog as another one, up to the numbers of new families**, if
the other one has the right families: exactly if the entries are the same and have the right
families too. -/
theorem agreeAfter_append_iff (hb : c.FamiliesFit b.units b.scales) :
    c.AgreeAfter (c.append a) (c.append b) ↔
      a.SameEntries b ∧ c.FamiliesFit a.units a.scales := by
  constructor
  · rintro ⟨ρ, hinj, hfix, heq⟩
    obtain ⟨hsame, hρ⟩ := (renumber_append_eq_iff hfix).mp heq
    refine ⟨hsame, (familiesFit_iff_matching hsame hb).mpr (matching_iff_exists.mpr ⟨ρ, ?_, hρ⟩)⟩
    exact fun f hf g hg => hinj ((mem_pairs_of_append hsame).mp hf)
      ((mem_pairs_of_append hsame).mp hg)
  · rintro ⟨hsame, ha⟩
    obtain ⟨ρ, hinj, hρ⟩ := matching_iff_exists.mp ((familiesFit_iff_matching hsame hb).mp ha)
    have hfix : ∀ f ∈ c.families, ρ f = f := fun f hf =>
      hρ (f, f) (mem_append_left _ (mem_append_left _ (mem_map_of_mem hf)))
    refine ⟨ρ, ?_, hfix, (renumber_append_eq_iff hfix).mpr ⟨hsame, hρ⟩⟩
    exact fun f hf g hg => hinj ((mem_pairs_of_append hsame).mpr hf)
      ((mem_pairs_of_append hsame).mpr hg)

end Agree

end Catalog

end Quantity
