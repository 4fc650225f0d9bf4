import Mathlib.Data.List.Basic
import Quantity.Catalog.Stale

/-!
# What makes a stored module stale

The tests of a stored module, said as conditions on the catalog. A stored module that passes them
has the name and the references it should have, and each of its entries is either in a new family
to which the catalog has no claim, or in a family of the catalog in which it fits.
-/

namespace Quantity.Catalog

variable {c : Catalog} {a : Artifact}

/-- A new family has units of a dimension that the catalog does not have, or redeclared ones. -/
theorem staleUnit?_new (h : c.isNewFamily u.family = true) :
    c.staleUnit? a u = none ↔
      c.redeclares a u.family = true ∨ ∀ v ∈ c.units, v.dimension ≠ u.dimension := by
  unfold staleUnit?
  rw [if_pos h]
  cases hredeclares : c.redeclares a u.family with
  | true => simp
  | false => simp

/-- A family of the catalog has units of the same dimension, and no scales. -/
theorem staleUnit?_known (h : c.isNewFamily u.family = false) :
    c.staleUnit? a u = none ↔
      (∃ v ∈ c.units, v.family = u.family) ∧
        (∀ v ∈ c.units, v.family = u.family → v.dimension = u.dimension) ∧
        ∀ s ∈ c.scales, s.family ≠ u.family := by
  unfold staleUnit?
  rw [h]
  simp [familyUnits, and_assoc]

theorem sharesReference_iff :
    c.sharesReference a s f other = true ↔
      ∃ point, other.refPoint = some point ∧ s.refPoint = some point ∧
        c.familyOfUnit? a other.unit other.unitModule = some f := by
  unfold sharesReference
  cases hpoint : other.refPoint with
  | none => simp
  | some point =>
    constructor
    · intro h
      simp only [Option.isSome_some, Bool.true_and, Bool.and_eq_true, decide_eq_true_eq] at h
      exact ⟨point, rfl, h.1.symm, h.2⟩
    · rintro ⟨_, ⟨rfl⟩, hs, hunit⟩
      simp [hs, hunit]

/-- No scale of the catalog has a claim to a new family of scales. -/
theorem staleScale?_new (hunit : c.familyOfUnit? a s.unit s.unitModule = some f)
    (h : c.isNewFamily s.family = true) :
    c.staleScale? a s = none ↔ ∀ t ∈ c.scales, c.sharesReference a s f t = false := by
  unfold staleScale?
  rw [hunit]
  dsimp only
  rw [if_pos h]
  simp

/-- All scales of a family of the catalog share the point of reference, and it has no units. -/
theorem staleScale?_known (hunit : c.familyOfUnit? a s.unit s.unitModule = some f)
    (h : c.isNewFamily s.family = false) :
    c.staleScale? a s = none ↔
      (∃ t ∈ c.scales, t.family = s.family) ∧
        (∀ t ∈ c.scales, t.family = s.family → c.sharesReference a s f t = true) ∧
        ∀ u ∈ c.units, u.family ≠ s.family := by
  unfold staleScale?
  rw [hunit]
  rw [h]
  simp [familyScales, and_assoc]

/-- **A stored module that is not stale** has the name of the module and references that are there,
and none of its entries is stale. -/
theorem staleReason?_eq_none_iff :
    c.staleReason? references module a = none ↔
      a.module = module ∧ (∀ r ∈ a.references, r ∈ references ∨ r ∈ c.modules) ∧
        (∀ u ∈ a.units, c.staleUnit? a u = none) ∧ ∀ s ∈ a.scales, c.staleScale? a s = none := by
  unfold staleReason?
  by_cases hmodule : a.module = module
  · rw [if_neg (not_not_intro hmodule)]
    simp [hmodule, hasModule, or_iff_not_imp_left]
  · rw [if_pos hmodule]
    simp [hmodule]

end Quantity.Catalog
