import Quantity.Catalog.Restore
import Quantity.Proofs.Expr.Encoding
import Quantity.Proofs.Model.Places

/-!
# Restored models

A catalog that can be restored at all is restored entry by entry (`restore_eq_ok`).
-/

namespace Quantity

open Model List

theorem mapM_eq_ok_iff {ε α β : Type} {f : α → Except ε β} {xs : List α} {ys : List β} :
    xs.mapM f = .ok ys ↔ List.Forall₂ (fun x y => f x = .ok y) xs ys := by
  induction xs generalizing ys with
  | nil =>
    rw [forall₂_nil_left_iff]
    exact ⟨fun h => (Except.ok.inj h).symm, fun h => h ▸ rfl⟩
  | cons x xs ih =>
    rw [mapM_cons, forall₂_cons_left_iff, bind_eq_ok_iff]
    constructor
    · rintro ⟨y, hy, h⟩
      obtain ⟨ys', hys, h⟩ := bind_eq_ok_iff.mp h
      exact ⟨y, ys', hy, ih.mp hys, (Except.ok.inj h).symm⟩
    · rintro ⟨y, ys', hy, hys, rfl⟩
      exact ⟨y, hy, bind_eq_ok_iff.mpr ⟨ys', ih.mpr hys, rfl⟩⟩

theorem exists_mapM_eq_ok_iff {ε α β : Type} {f : α → Except ε β} {xs : List α} :
    (∃ ys, xs.mapM f = .ok ys) ↔ ∀ x ∈ xs, ∃ y, f x = .ok y := by
  simp only [mapM_eq_ok_iff]
  induction xs with
  | nil => simp
  | cons x xs ih =>
    simp only [forall₂_cons_left_iff, forall_mem_cons, ← ih]
    constructor
    · rintro ⟨-, y, ys, hy, hys, -⟩
      exact ⟨⟨y, hy⟩, ys, hys⟩
    · rintro ⟨⟨y, hy⟩, ys, hys⟩
      exact ⟨y :: ys, y, ys, hy, hys, rfl⟩

/-- The unit of a descriptor in a model. -/
def UnitDescriptor.entry (u : UnitDescriptor) : UnitEntry :=
  { name := u.name
    origin := .restored u.module
    kind := u.kind
    dimension := ⟨u.dimension, u.name ++ "::DIMENSION"⟩
    factor := ⟨u.constant, u.factor, u.name ++ "::FACTOR"⟩
    format := u.format
    tags := u.tags
    family := some u.family
    valid := true }

theorem UnitDescriptor.eq_entry {u : UnitDescriptor} (h : u.restore = .ok e) : u.entry = e := by
  unfold restore at h
  split_ifs at h
  exact Except.ok.inj h

/-- A unit can be restored exactly if its factor is of its kind and not zero. -/
theorem UnitDescriptor.restore_ok_iff (u : UnitDescriptor) :
    (∃ e, u.restore = .ok e) ↔ u.factor.kind = u.kind ∧ u.factor.isZero = false := by
  unfold restore
  by_cases hkind : u.factor.kind = u.kind
  · by_cases hzero : u.factor.isZero = true
    · simp [hkind, hzero]
    · simp [hkind, hzero]
  · simp [hkind]

/-- Whether a unit is the one of a scale. -/
def ScaleDescriptor.owns (s : ScaleDescriptor) (u : UnitDescriptor) : Bool :=
  u.module = s.unitModule && u.name = s.unit

theorem ScaleDescriptor.owns_iff {s : ScaleDescriptor} :
    s.owns u = true ↔ (u.module, u.name) = (s.unitModule, s.unit) := by
  simp [owns]

/-- The units of another module do not get in the way of a scale that has its unit. -/
theorem Catalog.find?_owns_append {c : Catalog} (hc : ∀ u ∈ c.units, u.module ∈ c.modules)
    (hfree : module ∉ c.modules) {units : List UnitDescriptor}
    (hunits : ∀ u ∈ units, u.module = module) {s : ScaleDescriptor}
    (hu : c.units.reverse.find? s.owns = some u) :
    (c.units ++ units).reverse.find? s.owns = some u := by
  obtain ⟨hmodule, -⟩ := Prod.mk.inj (ScaleDescriptor.owns_iff.mp (find?_some hu))
  have hknown : s.unitModule ∈ c.modules :=
    hmodule ▸ hc u (mem_reverse.mp (mem_of_find?_eq_some hu))
  have hnone : units.reverse.find? s.owns = none := by
    refine List.find?_eq_none.mpr fun v hv howns => hfree ?_
    obtain ⟨hvmodule, -⟩ := Prod.mk.inj (ScaleDescriptor.owns_iff.mp howns)
    rw [← hunits v (mem_reverse.mp hv), hvmodule]
    exact hknown
  rw [reverse_append, find?_append, hnone, Option.none_or, hu]

/-- The scale of a descriptor in a model. -/
def ScaleDescriptor.entry (units : List UnitDescriptor) (s : ScaleDescriptor) : ScaleEntry :=
  { name := s.name
    origin := .restored s.module
    unit := (places units s.owns).getLast?
    offset := ⟨true, s.offset, s.name ++ "::OFFSET"⟩
    refPoint := s.refPoint
    format := s.format
    family := some s.family
    valid := true }

theorem ScaleDescriptor.eq_entry {units : List UnitDescriptor} {s : ScaleDescriptor}
    (h : s.restore units = .ok e) : s.entry units = e := by
  unfold restore at h
  dsimp only at h
  split at h
  · rename_i place unit hplace _
    split_ifs at h
    cases h
    rw [← hplace]
    rfl
  · cases h

/-- A scale can be restored exactly if its unit is there, and its offset is of the kind of the
unit. -/
theorem ScaleDescriptor.restore_ok_iff (units : List UnitDescriptor) (s : ScaleDescriptor) :
    (∃ e, s.restore units = .ok e) ↔
      ∃ u, units.reverse.find? s.owns = some u ∧ s.offset.kind = u.kind := by
  have hfind := find?_reverse_eq units s.owns
  have howns : (fun u : UnitDescriptor => u.module = s.unitModule && u.name = s.unit) = s.owns := rfl
  unfold restore
  dsimp only
  rw [howns]
  cases hplace : (places units s.owns).getLast? with
  | none =>
    rw [hplace] at hfind
    rw [hfind]
    simp
  | some i =>
    have hlt := getLast?_places_lt hplace
    rw [hplace, Option.bind_some, getElem?_eq_getElem hlt] at hfind
    rw [hfind]
    by_cases hkind : s.offset.kind = units[i].kind
    · simp [hkind]
    · simp [hkind]

/-- The model of a catalog that can be restored. -/
def Catalog.restored (c : Catalog) : Model :=
  { units := c.units.map (·.entry), scales := c.scales.map (·.entry c.units) }

/-- **A catalog is restored entry by entry.** -/
theorem Catalog.restore_eq_ok {c : Catalog} (h : c.restore = .ok m) : m = c.restored := by
  obtain ⟨units, hunits, h⟩ := bind_eq_ok_iff.mp h
  obtain ⟨scales, hscales, h⟩ := bind_eq_ok_iff.mp h
  have hunits := mapM_eq_ok_iff.mp hunits
  have hscales := mapM_eq_ok_iff.mp hscales
  have hunits : c.units.map (·.entry) = units := by
    rw [← forall₂_eq_eq_eq, forall₂_map_left_iff]
    exact hunits.imp fun _ _ => UnitDescriptor.eq_entry
  have hscales : c.scales.map (·.entry c.units) = scales := by
    rw [← forall₂_eq_eq_eq, forall₂_map_left_iff]
    exact hscales.imp fun _ _ => ScaleDescriptor.eq_entry
  rw [← Except.ok.inj h, ← hunits, ← hscales]
  rfl

/-- **When a catalog can be restored**, entry by entry. -/
theorem Catalog.restore_ok_iff (c : Catalog) :
    (∃ m, c.restore = .ok m) ↔
      (∀ u ∈ c.units, u.factor.kind = u.kind ∧ u.factor.isZero = false) ∧
        ∀ s ∈ c.scales, ∃ u, c.units.reverse.find? s.owns = some u ∧ s.offset.kind = u.kind := by
  simp only [← UnitDescriptor.restore_ok_iff, ← ScaleDescriptor.restore_ok_iff,
    ← exists_mapM_eq_ok_iff]
  unfold restore
  simp only [bind_eq_ok_iff]
  constructor
  · rintro ⟨m, units, hus, scales, hss, -⟩
    exact ⟨⟨units, hus⟩, ⟨scales, hss⟩⟩
  · rintro ⟨⟨units, hus⟩, ⟨scales, hss⟩⟩
    exact ⟨_, units, hus, scales, hss, rfl⟩

end Quantity
