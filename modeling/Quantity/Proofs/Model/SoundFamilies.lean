import Quantity.Proofs.Model.Frame
import Mathlib.Order.Bounds.Basic

/-!
# Sound families

Families are numbered and connected anew with each text that extends a model, while most entries
are in families already and some never get into one. `soundFamilies_of_reached` says what holds
after any number of texts: entries are in families exactly if they have a meaning, families are of
one kind and one dimension, and their members know each other.
-/

namespace Quantity.Model

open Elaborate List

/-! ### Members that know each other -/

section Members

variable {α : Type} {family : α → Option FamilyId} {prime : α → Option Nat}
  {relatives : α → List Nat} {xs : List α}

/-- The places of the entries in a family. -/
def memberPlaces (family : α → Option FamilyId) (xs : List α) (f : FamilyId) : Set Nat :=
  {i | ∃ x, xs[i]? = some x ∧ family x = some f}

/-- **The members of each family know each other**: all but the first have the first as their prime,
and all have the others as relatives, in order. -/
structure Acquainted (family : α → Option FamilyId) (prime : α → Option Nat)
    (relatives : α → List Nat) (xs : List α) : Prop where
  prime : ∀ (i : Nat) (x : α) (f : FamilyId), xs[i]? = some x → family x = some f →
    ∃ first, IsLeast (memberPlaces family xs f) first ∧
      prime x = if i = first then none else some first
  relatives : ∀ (i : Nat) (x : α) (f : FamilyId), xs[i]? = some x → family x = some f →
    (relatives x).Pairwise (· < ·) ∧ ∀ j, j ∈ relatives x ↔ j ≠ i ∧ j ∈ memberPlaces family xs f

/-- Members that are connected with their family know each other. -/
theorem acquainted_of_members (hvalid : ∀ x ∈ xs, valid x = family x)
    (hlinked : ∀ (i : Nat) (x : α) (f : FamilyId), xs[i]? = some x → family x = some f →
      prime x = primeOf? (members valid xs f) i ∧
        relatives x = (members valid xs f).filter (· ≠ i)) :
    Acquainted family prime relatives xs := by
  have hmem (f : FamilyId) (i : Nat) : i ∈ members valid xs f ↔ i ∈ memberPlaces family xs f := by
    refine mem_places.trans (exists_congr fun x => and_congr_right fun hx => ?_)
    rw [decide_eq_true_eq, hvalid x (mem_of_getElem? hx)]
  have hsorted (f : FamilyId) : (members valid xs f).Pairwise (· < ·) := pairwise_places _ _
  constructor
  case prime =>
    intro i x f hx hf
    have hi : i ∈ members valid xs f := (hmem f i).mpr ⟨x, hx, hf⟩
    rw [(hlinked i x f hx hf).1]
    cases hmembers : members valid xs f with
    | nil =>
      rw [hmembers] at hi
      cases hi
    | cons first later =>
      have hfirst := (pairwise_cons.mp (hmembers ▸ hsorted f)).1
      refine ⟨first, ⟨(hmem f first).mp ?_, fun j hj => ?_⟩, ?_⟩
      · rw [hmembers]
        exact mem_cons_self ..
      · rw [← hmem, hmembers] at hj
        rcases mem_cons.mp hj with rfl | hj
        · exact Nat.le_refl _
        · exact Nat.le_of_lt (hfirst j hj)
      · by_cases hne : i = first
        · simp [primeOf?, hne]
        · simp [primeOf?, hne, Ne.symm hne]
  case relatives =>
    intro i x f hx hf
    rw [(hlinked i x f hx hf).2]
    refine ⟨(hsorted f).filter _, fun j => ?_⟩
    rw [mem_filter, hmem, decide_eq_true_eq]
    exact and_comm

end Members

section Settled

variable {m : Model} (h : m.Settled)
include h

theorem Settled.validFamily_eq : ∀ u ∈ m.units, validFamily u = u.family := by
  intro u hu
  rw [validFamily, ← h.units u hu]
  cases u.family <;> rfl

theorem Settled.validScaleFamily_eq : ∀ s ∈ m.scales, validScaleFamily s = s.family := by
  intro s hs
  rw [validScaleFamily, ← h.scales s hs]
  cases s.family <;> rfl

theorem Settled.acquainted_units : Acquainted (·.family) (·.prime) (·.relatives) m.units := by
  refine acquainted_of_members h.validFamily_eq fun i u f hu hf => ?_
  have hvalid := (h.validFamily_eq u (mem_of_getElem? hu)).trans hf
  have hlinked := (linkUnit_of_some hvalid m.units i).symm.trans (h.linked.linkUnit_eq hu)
  exact ⟨(congrArg UnitEntry.prime hlinked).symm, (congrArg UnitEntry.relatives hlinked).symm⟩

theorem Settled.acquainted_scales : Acquainted (·.family) (·.prime) (·.relatives) m.scales := by
  refine acquainted_of_members h.validScaleFamily_eq fun i s f hs hf => ?_
  have hvalid := (h.validScaleFamily_eq s (mem_of_getElem? hs)).trans hf
  have hlinked := (linkScale_of_some hvalid m.scales i).symm.trans (h.linked.linkScale_eq hs)
  exact ⟨(congrArg ScaleEntry.prime hlinked).symm, (congrArg ScaleEntry.relatives hlinked).symm⟩

end Settled

/-! ### Families of one kind -/

/-- **The units of a family have the same dimension, and no scale is among them.** -/
structure Sorted (m : Model) : Prop where
  dimension : ∀ u ∈ m.units, ∀ v ∈ m.units, ∀ f, u.family = some f → v.family = some f →
    u.dimension.value = v.dimension.value
  apart : ∀ u ∈ m.units, ∀ s ∈ m.scales, ∀ f, u.family = some f → s.family ≠ some f

section Grows

variable {firstFamily : FamilyId} {m c : Model} {us : List UnitEntry} {ss : List ScaleEntry}
  {low mid high : Nat} (h : Grows firstFamily m c us ss low mid high)
include h

theorem Grows.lt_of_unit (hu : u ∈ m.units) (hf : u.family = some f) : f.toNat < low :=
  h.free.2 f (mem_append_left _ (mem_filterMap.mpr ⟨u, hu, hf⟩))

theorem Grows.lt_of_scale (hs : s ∈ m.scales) (hf : s.family = some f) : f.toNat < low :=
  h.free.2 f (mem_append_right _ (mem_filterMap.mpr ⟨s, hs, hf⟩))

/-- A unit in a family: there is an earlier one of its dimension, or the family is new. -/
theorem Grows.unit_cases (hv : v ∈ m.units ++ us) (hf : v.family = some f) :
    (∃ u ∈ m.units, u.family = some f ∧ u.dimension.value = v.dimension.value) ∨
      v ∈ us ∧ low ≤ f.toNat ∧ f.toNat < mid := by
  rcases mem_append.mp hv with hv | hv
  · exact .inl ⟨v, hv, hf, rfl⟩
  · rcases h.joinedUnits.cases v hv f hf with ⟨u, hu, huf, k, hkey, hshare⟩ | hnew
    · refine .inl ⟨u, hu, huf, ?_⟩
      rw [UnitEntry.dimension_of_familyKey hkey]
      exact Option.some.inj hshare
    · exact .inr ⟨hv, hnew⟩

theorem Grows.scale_cases (ht : t ∈ m.scales ++ ss) (hf : t.family = some f) :
    (∃ s ∈ m.scales, s.family = some f) ∨ mid ≤ f.toNat ∧ f.toNat < high := by
  rcases mem_append.mp ht with ht | ht
  · exact .inl ⟨t, ht, hf⟩
  · rcases h.joinedScales.cases t ht f hf with ⟨s, hs, hsf, -⟩ | hnew
    · exact .inl ⟨s, hs, hsf⟩
    · exact .inr hnew

/-- Late units that are in a new family together have the same dimension. -/
theorem Grows.dimension_late (hv : v ∈ us) (hw : w ∈ us) (hvf : v.family = some f)
    (hwf : w.family = some f) (hlow : low ≤ f.toNat) (hmid : f.toNat < mid) :
    v.dimension.value = w.dimension.value := by
  obtain ⟨i, hi⟩ := mem_iff_getElem?.mp hv
  obtain ⟨j, hj⟩ := mem_iff_getElem?.mp hw
  by_cases hij : i = j
  · subst hij
    rw [hi] at hj
    cases hj
    rfl
  · obtain ⟨hsome, hkey⟩ := h.joinedUnits.same_of_ne hij hi hj hvf hwf hlow hmid
    obtain ⟨k, hk⟩ := Option.isSome_iff_exists.mp hsome
    rw [UnitEntry.dimension_of_familyKey hk, UnitEntry.dimension_of_familyKey (hkey ▸ hk)]

/-- **Families stay of one kind and one dimension.** -/
theorem Sorted.grows (hm : m.Sorted) : c.Sorted := by
  have hle := h.le
  constructor
  case dimension =>
    intro u hu v hv f huf hvf
    obtain ⟨u', hu', heq⟩ := exists_mem_of_map_eq h.units hu
    obtain ⟨v', hv', heq'⟩ := exists_mem_of_map_eq h.units hv
    obtain ⟨hfamily, -, hdimension, -⟩ := UnitEntry.eq_of_unlinked_eq heq
    obtain ⟨hfamily', -, hdimension', -⟩ := UnitEntry.eq_of_unlinked_eq heq'
    rw [← hfamily] at huf
    rw [← hfamily'] at hvf
    rw [← hdimension, ← hdimension']
    rcases h.unit_cases hu' huf with ⟨a, ha, haf, had⟩ | ⟨hu', hlow, hmid⟩
    · rcases h.unit_cases hv' hvf with ⟨b, hb, hbf, hbd⟩ | ⟨-, hlow, hmid⟩
      · rw [← had, ← hbd]
        exact hm.dimension a ha b hb f haf hbf
      · have := h.lt_of_unit ha haf
        omega
    · rcases h.unit_cases hv' hvf with ⟨b, hb, hbf, -⟩ | ⟨hv', -, -⟩
      · have := h.lt_of_unit hb hbf
        omega
      · exact h.dimension_late hu' hv' huf hvf hlow hmid
  case apart =>
    intro u hu s hs f huf hsf
    obtain ⟨u', hu', heq⟩ := exists_mem_of_map_eq h.units hu
    obtain ⟨s', hs', heq'⟩ := exists_mem_of_map_eq h.scales hs
    rw [← (UnitEntry.eq_of_unlinked_eq heq).1] at huf
    rw [← (ScaleEntry.eq_of_unlinked_eq heq').1] at hsf
    rcases h.unit_cases hu' huf with ⟨a, ha, haf, -⟩ | ⟨-, hlow, hmid⟩
    · rcases h.scale_cases hs' hsf with ⟨b, hb, hbf⟩ | ⟨hmid, hhigh⟩
      · exact hm.apart a ha b hb f haf hbf
      · have := h.lt_of_unit ha haf
        omega
    · rcases h.scale_cases hs' hsf with ⟨b, hb, hbf⟩ | ⟨hmid', -⟩
      · have := h.lt_of_scale hb hbf
        omega
      · omega

/-- **A late unit that reuses a name is alone in its family.** -/
theorem Grows.alone (hi : m.units.length ≤ i) (hu : c.units[i]? = some u)
    (hredeclared : u.redeclared = true) (huf : u.family = some f) (hv : c.units[j]? = some v)
    (hvf : v.family = some f) : j = i := by
  obtain ⟨u', hu', heq⟩ := exists_getElem?_of_map_eq h.units hu
  obtain ⟨v', hv', heq'⟩ := exists_getElem?_of_map_eq h.units hv
  obtain ⟨hfamily, -, -, hreused⟩ := UnitEntry.eq_of_unlinked_eq heq
  have hkey : u'.familyKey = none := by
    rw [UnitEntry.familyKey, hreused, hredeclared]
    rfl
  rw [← hfamily] at huf
  rw [← (UnitEntry.eq_of_unlinked_eq heq').1] at hvf
  rw [getElem?_append_right hi] at hu'
  have hle := h.le
  -- a unit that reuses a name joins nobody
  have hnew : low ≤ f.toNat ∧ f.toNat < mid := by
    rcases h.joinedUnits.cases u' (mem_of_getElem? hu') f huf with ⟨_, -, -, k, hk, -⟩ | hnew
    · rw [hkey] at hk
      cases hk
    · exact hnew
  by_cases hj : j < m.units.length
  · rw [getElem?_append_left hj] at hv'
    have := h.lt_of_unit (mem_of_getElem? hv') hvf
    omega
  · rw [getElem?_append_right (Nat.le_of_not_lt hj)] at hv'
    by_contra hne
    have hplaces : i - m.units.length ≠ j - m.units.length := by omega
    obtain ⟨hsome, -⟩ := h.joinedUnits.same_of_ne hplaces hu' hv' huf hvf hnew.1 hnew.2
    rw [hkey] at hsome
    cases hsome

end Grows

/-! ### After any number of texts -/

/-- **Sound families**: an entry is in a family exactly if it has a meaning; the units of a family
have one dimension, and no scale is among them; the members of a family know each other; and a late
unit that reuses a name is alone. -/
structure SoundFamilies (m : Model) : Prop extends m.Sorted where
  units : ∀ u ∈ m.units, u.family.isSome = true ↔ u.valid = true
  scales : ∀ s ∈ m.scales, s.family.isSome = true ↔ s.valid = true
  acquaintedUnits : Acquainted (·.family) (·.prime) (·.relatives) m.units
  acquaintedScales : Acquainted (·.family) (·.prime) (·.relatives) m.scales
  alone : ∀ (i : Nat) (u : UnitEntry) (f : FamilyId), m.lateUnits ≤ i → m.units[i]? = some u →
    u.redeclared = true → u.family = some f → memberPlaces (·.family) m.units f = {i}

theorem Settled.soundFamilies {m : Model} (h : m.Settled) (hsorted : m.Sorted)
    (halone : ∀ (i j : Nat) (u v : UnitEntry) (f : FamilyId), m.lateUnits ≤ i →
      m.units[i]? = some u → u.redeclared = true → u.family = some f → m.units[j]? = some v →
        v.family = some f → j = i) : m.SoundFamilies where
  toSorted := hsorted
  units u hu := by rw [h.units u hu]
  scales s hs := by rw [h.scales s hs]
  acquaintedUnits := h.acquainted_units
  acquaintedScales := h.acquainted_scales
  alone i u f hi hu hredeclared hf := by
    refine Set.eq_singleton_iff_unique_mem.mpr ⟨⟨u, hu, hf⟩, ?_⟩
    rintro j ⟨v, hv, hvf⟩
    exact halone i j u v f hi hu hredeclared hf hv hvf

theorem Reached.sorted {m : Model} (h : m.Reached) : m.Sorted := by
  induction h with
  | empty => exact ⟨by simp, by simp⟩
  | extend hm hc ih =>
    obtain ⟨us, ss, low, mid, high, hgrows⟩ := hm.settled.exists_grows hc
    exact ih.grows hgrows

/-- **Families are sound after any number of texts.** -/
theorem soundFamilies_of_reached {m : Model} (h : m.Reached) : m.SoundFamilies := by
  refine h.settled.soundFamilies h.sorted ?_
  cases h with
  | empty => simp
  | @extend m text options c hm hc =>
    obtain ⟨us, ss, low, mid, high, hgrows⟩ := hm.settled.exists_grows hc
    intro i j u v f hi hu hredeclared huf hv hvf
    rw [(late_extend hc).1] at hi
    exact hgrows.alone hi hu hredeclared huf hv hvf

/-- Yards join meters and feet. The feet that are declared again are alone, so depths in these feet
are no heights. -/
theorem soundFamilies_of_reached_moreLengths :
    ∃ c d, compile lengths { kind := .decimal } = .ok c ∧
      c.model.extend moreLengths { kind := .decimal } = .ok d ∧ d.model.Reached ∧
      d.model.units.map (fun u => (u.redeclared, u.family)) =
        [(false, some 0), (false, some 0), (false, some 0), (true, some 2), (false, some 3)] ∧
      d.model.scales.map (·.family) = [some 1, some 4] ∧ d.model.SoundFamilies := by
  obtain ⟨c, hc, d, hd, hunits, hscales⟩ :
      ∃ c, compile lengths { kind := .decimal } = .ok c ∧
        ∃ d, c.model.extend moreLengths { kind := .decimal } = .ok d ∧
          d.model.units.map (fun u => (u.redeclared, u.family)) =
            [(false, some 0), (false, some 0), (false, some 0), (true, some 2), (false, some 3)] ∧
          d.model.scales.map (·.family) = [some 1, some 4] := by
    decide +kernel
  have hreached := Reached.extend (.extend .empty hc) hd
  exact ⟨_, _, hc, hd, hreached, hunits, hscales, soundFamilies_of_reached hreached⟩

end Quantity.Model
