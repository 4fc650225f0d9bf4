import Quantity.Proofs.Catalog.Restored

/-!
# Vetted catalogs

Modules are added to a catalog one by one. Their entries belong to them, and the units of their
scales are there. Beyond that, compiled definitions have factors and offsets of the right kinds,
and factors that are known are not zero. Nothing of the kind is known of modules from a store,
which is why a vetted catalog has a list of them. `Vetted.append` says what a module that is added
has to bring along, and `Vetted.restore_ok_iff` says what is left to ask if the catalog is to be
restored.
-/

namespace Quantity

open List

/-- The factor of the unit is of its kind, and not zero if it is known. -/
def UnitDescriptor.IsSound (u : UnitDescriptor) : Prop :=
  u.factor.kind = u.kind ∧ (u.constant = true → u.factor.isZero = false)

/-- The offset of the scale is of the kind of its unit. -/
def ScaleDescriptor.IsSound (units : List UnitDescriptor) (s : ScaleDescriptor) : Prop :=
  ∀ u, units.reverse.find? s.owns = some u → s.offset.kind = u.kind

namespace LoadedModule

/-- The entries of a module belong to it, and the units of its scales are there, in the module or
in the catalog. -/
structure Joins (m : LoadedModule) (c : Catalog) : Prop where
  units : ∀ u ∈ m.units, u.module = m.name
  scales : ∀ s ∈ m.scales, s.module = m.name
  found : ∀ s ∈ m.scales, ∃ u, (c.units ++ m.units).reverse.find? s.owns = some u

/-- The entries of a module are sound behind a catalog. -/
structure IsSound (m : LoadedModule) (c : Catalog) : Prop where
  units : ∀ u ∈ m.units, u.IsSound
  scales : ∀ s ∈ m.scales, s.IsSound (c.units ++ m.units)

variable {m : LoadedModule}

theorem Joins.of_empty (h : m.Joins {}) (c : Catalog) : m.Joins c where
  units := h.units
  scales := h.scales
  found s hs := by
    obtain ⟨u, hu⟩ := h.found s hs
    have hu : m.units.reverse.find? s.owns = some u := hu
    refine ⟨u, ?_⟩
    rw [reverse_append, find?_append, hu, Option.some_or]

theorem IsSound.of_empty (h : m.IsSound {}) (hjoins : m.Joins {}) (c : Catalog) :
    m.IsSound c where
  units := h.units
  scales s hs u hu := by
    obtain ⟨v, hv⟩ := hjoins.found s hs
    have hkind := h.scales s hs v hv
    have hv : m.units.reverse.find? s.owns = some v := hv
    rw [reverse_append, find?_append, hv] at hu
    cases hu
    exact hkind

end LoadedModule

namespace Catalog

/-- **A catalog to which modules were added one by one**: all entries are sound, but for those of
modules that were `stored`. -/
structure Vetted (stored : List String) (c : Catalog) : Prop where
  modules : ∀ u ∈ c.units, u.module ∈ c.modules
  found : ∀ s ∈ c.scales, ∃ u, c.units.reverse.find? s.owns = some u
  units : ∀ u ∈ c.units, u.module ∉ stored → u.IsSound
  scales : ∀ s ∈ c.scales, s.module ∉ stored → s.IsSound c.units

variable {stored : List String} {c : Catalog} {m : LoadedModule}

theorem vetted_empty (stored : List String) : Vetted stored {} where
  modules := by simp
  found := by simp
  units := by simp
  scales := by simp

theorem Vetted.mono (h : Vetted stored c) (hsub : stored ⊆ stored') : Vetted stored' c where
  modules := h.modules
  found := h.found
  units u hu hstored := h.units u hu fun hmem => hstored (hsub hmem)
  scales s hs hstored := h.scales s hs fun hmem => hstored (hsub hmem)

/-- **A vetted catalog stays vetted** when a module joins it, whose entries are sound unless it was
stored. -/
theorem Vetted.append (h : Vetted stored c) (hfree : m.name ∉ c.modules) (hjoins : m.Joins c)
    (hsound : m.name ∉ stored → m.IsSound c) : Vetted stored (c.append m) where
  modules u hu := by
    rcases mem_append.mp hu with hu | hu
    · exact mem_append_left _ (h.modules u hu)
    · rw [hjoins.units u hu]
      exact mem_append_right _ (mem_singleton_self _)
  found s hs := by
    rcases mem_append.mp hs with hs | hs
    · obtain ⟨u, hu⟩ := h.found s hs
      exact ⟨u, find?_owns_append h.modules hfree hjoins.units hu⟩
    · exact hjoins.found s hs
  units u hu hstored := by
    rcases mem_append.mp hu with hu | hu
    · exact h.units u hu hstored
    · rw [hjoins.units u hu] at hstored
      exact (hsound hstored).units u hu
  scales s hs hstored := by
    rcases mem_append.mp hs with hs | hs
    · intro u hu
      obtain ⟨v, hv⟩ := h.found s hs
      have hsame : (c.append m).units.reverse.find? s.owns = some v :=
        find?_owns_append h.modules hfree hjoins.units hv
      rw [hsame] at hu
      cases hu
      exact h.scales s hs hstored _ hv
    · rw [hjoins.scales s hs] at hstored
      exact (hsound hstored).scales s hs

/-- **When a vetted catalog can be restored**: no factor is zero, and the kinds of stored entries
fit as well. -/
theorem Vetted.restore_ok_iff (h : Vetted stored c) :
    (∃ model, c.restore = .ok model) ↔
      (∀ u ∈ c.units, u.factor.isZero = false) ∧
        (∀ u ∈ c.units, u.module ∈ stored → u.factor.kind = u.kind) ∧
        ∀ s ∈ c.scales, s.module ∈ stored → s.IsSound c.units := by
  rw [Catalog.restore_ok_iff]
  constructor
  · rintro ⟨hunits, hscales⟩
    refine ⟨fun u hu => (hunits u hu).2, fun u hu _ => (hunits u hu).1, fun s hs _ u hu => ?_⟩
    obtain ⟨v, hv, hkind⟩ := hscales s hs
    rw [hu] at hv
    cases hv
    exact hkind
  · rintro ⟨hzero, hkinds, hoffsets⟩
    constructor
    · intro u hu
      refine ⟨?_, hzero u hu⟩
      by_cases hstored : u.module ∈ stored
      · exact hkinds u hu hstored
      · exact (h.units u hu hstored).1
    · intro s hs
      obtain ⟨u, hu⟩ := h.found s hs
      refine ⟨u, hu, ?_⟩
      by_cases hstored : s.module ∈ stored
      · exact hoffsets s hs hstored u hu
      · exact h.scales s hs hstored u hu

end Catalog

end Quantity
