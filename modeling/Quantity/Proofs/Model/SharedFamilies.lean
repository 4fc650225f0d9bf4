import Quantity.Proofs.Model.SoundFamilies
import Mathlib.Data.Nat.Find

/-!
# Families that units of one dimension share

A late unit joins the first unit of its dimension, unless it reuses a name. So the units of one
dimension that reuse no name should all be in one family, over any number of texts, and they are,
with one exception. The first unit of the dimension can itself reuse a name. It stays alone in its
own text, where the others found a family beside it; but what later texts declare joins it all the
same. `Built.family_eq_iff_together` says that there is no other exception.
-/

namespace Quantity.Model

open Elaborate List

/-- The unit at a place has a meaning and a dimension. -/
def HasDimension (units : List UnitEntry) (d : Dimension) (i : Nat) (u : UnitEntry) : Prop :=
  units[i]? = some u ∧ u.valid = true ∧ u.dimension.value = d

theorem exists_isFirst {P : Nat → UnitEntry → Prop} {i : Nat} {u : UnitEntry} (h : P i u) :
    ∃ k, IsFirst P k := by
  classical
  have hex : ∃ k, ∃ w, P k w := ⟨i, u, h⟩
  exact ⟨Nat.find hex, Nat.find_spec hex, fun j v hv => Nat.find_min' hex ⟨v, hv⟩⟩

/-! ### One text -/

theorem get?_unitFamilies {units : List UnitEntry} (hk : IsFirst (HasDimension units d) k)
    (hw : HasDimension units d k w) (hfamily : w.family.isSome = true) (next : FamilyId) :
    (Numbering.mk (unitFamilies units) next).get? d = w.family := by
  obtain ⟨f, hf⟩ := Option.isSome_iff_exists.mp hfamily
  obtain ⟨hget, hvalid, hd⟩ := hw
  obtain ⟨hlt, hget⟩ := List.getElem?_eq_some_iff.mp hget
  have hsplit : units = units.take k ++ w :: units.drop (k + 1) := by
    rw [← hget, getElem_cons_drop, take_append_drop]
  have hbefore : (unitFamilies (units.take k)).find? (fun e => e.1 = d) = none := by
    refine List.find?_eq_none.mpr ?_
    rintro ⟨d', g⟩ hmem heq
    obtain ⟨v, hv, hvg⟩ := mem_filterMap.mp hmem
    split_ifs at hvg with hvvalid
    obtain ⟨j, hj⟩ := mem_iff_getElem?.mp hv
    rw [getElem?_take] at hj
    split_ifs at hj with hjk
    obtain ⟨g', -, hg'⟩ := Option.map_eq_some_iff.mp hvg
    have hvd : v.dimension.value = d := by
      rw [← of_decide_eq_true heq]
      exact congrArg Prod.fst hg'
    exact Nat.not_lt.mpr (hk.2 j v ⟨hj, hvvalid, hvd⟩) hjk
  have hfound : (unitFamilies units).find? (fun e => e.1 = d) = some (d, f) := by
    rw [hsplit]
    unfold unitFamilies at hbefore ⊢
    rw [filterMap_append, find?_append, hbefore]
    simp [hvalid, hf, hd]
  rw [hf, Numbering.get?, hfound]
  rfl

section Extend

variable {m : Model} {text : String} {options : Options} {c : Compilation}

/-- An earlier unit is what it was, as far as families are concerned. -/
theorem Settled.exists_early (hm : m.Settled) (hc : m.extend text options = .ok c)
    (hi : i < m.units.length) (hu : HasDimension c.model.units d i u) :
    ∃ u₀, HasDimension m.units d i u₀ ∧ u₀.family = u.family ∧ u₀.redeclared = u.redeclared := by
  obtain ⟨hget, hvalid, hd⟩ := hu
  obtain ⟨_, _, hkept, -⟩ := hm.exists_kept_unit hc (getElem?_eq_getElem hi)
  rw [hget, Option.some.injEq] at hkept
  subst hkept
  exact ⟨_, ⟨getElem?_eq_getElem hi, hvalid, hd⟩, rfl, rfl⟩

/-- The first unit of a dimension was the first one before, unless it is late. -/
theorem Settled.isFirst_early (hm : m.Settled) (hc : m.extend text options = .ok c)
    (hk : IsFirst (HasDimension c.model.units d) k) (hw : HasDimension c.model.units d k w)
    (hlt : k < m.units.length) :
    IsFirst (HasDimension m.units d) k ∧
      ∃ w₀, HasDimension m.units d k w₀ ∧ w₀.family = w.family ∧ w₀.redeclared = w.redeclared := by
  obtain ⟨w₀, hw₀, hsame⟩ := hm.exists_early hc hlt hw
  refine ⟨⟨⟨w₀, hw₀⟩, fun j v hv => ?_⟩, w₀, hw₀, hsame⟩
  obtain ⟨_, _, hkept, -⟩ := hm.exists_kept_unit hc hv.1
  exact hk.2 j _ ⟨hkept, hv.2.1, hv.2.2⟩

theorem Settled.length_le (hm : m.Settled) (hc : m.extend text options = .ok c) :
    m.units.length ≤ c.model.units.length := by
  by_contra hlt
  rw [Nat.not_le] at hlt
  obtain ⟨_, _, hkept, -⟩ := hm.exists_kept_unit hc (getElem?_eq_getElem hlt)
  exact Nat.lt_irrefl _ (lt_of_getElem? hkept)

/-- **The families of the units that a text declares** are numbered by dimension, but for units that
reuse a name, and a dimension that has units has the number of the first of them. -/
theorem Settled.exists_numbering (hm : m.Settled) (hc : m.extend text options = .ok c) :
    ∃ n : Numbering Dimension,
      (∀ d k w, IsFirst (HasDimension m.units d) k → HasDimension m.units d k w →
        n.get? d = w.family) ∧
      ∀ d i u, m.units.length ≤ i → HasDimension c.model.units d i u → u.redeclared = false →
        n.get? d = u.family := by
  obtain ⟨e, ds, us, ss, -, hadds, -, hmodel⟩ := exists_extended hc
  obtain ⟨late, hunits, hlate, hpairs⟩ := exists_late_units hm hadds options.firstFamily
  have hus : unitFamilies us = [] :=
    filterMap_eq_nil_iff.mpr fun u hu => by simp [hadds.units u hu]
  have hknown : unitFamilies e.units = unitFamilies m.units := by
    rw [hadds.eq]
    show unitFamilies (m.units ++ us) = _
    unfold unitFamilies at hus ⊢
    rw [filterMap_append, hus, append_nil]
  refine ⟨((e.unitNumbering options.firstFamily).assign e.unitKeys).2, ?_, ?_⟩
  · intro d k w hk hw
    have hfamily : w.family.isSome = true := by
      rw [hm.units w (mem_of_getElem? hw.1)]
      exact hw.2.1
    obtain ⟨f, hf⟩ := Option.isSome_iff_exists.mp hfamily
    rw [hf]
    refine Numbering.get?_assign ?_ _
    rw [unitNumbering, hknown, get?_unitFamilies hk hw hfamily, hf]
  · rintro d i u hi ⟨hu, hvalid, hd⟩ hredeclared
    have hmap : c.model.units.map (·.unlinked) = (m.units ++ late).map (·.unlinked) := by
      rw [hmodel, ← hunits]
      exact map_unlinked_units e _ _
    obtain ⟨v, hv, hvu⟩ := exists_getElem?_of_map_eq hmap hu
    obtain ⟨hvfamily, hvvalid, hvdimension, hvredeclared⟩ := UnitEntry.eq_of_unlinked_eq hvu
    rw [getElem?_append_right hi] at hv
    have hvmem := mem_of_getElem? hv
    have hfamily : v.family.isSome = true := by
      rw [hlate v hvmem, hvvalid, hvalid]
    obtain ⟨f, hf⟩ := Option.isSome_iff_exists.mp hfamily
    have hkey : v.familyKey = some d := by
      rw [UnitEntry.familyKey, hvredeclared, hredeclared, hvdimension, hd]
      rfl
    rw [← hvfamily, hf]
    refine Numbering.get?_assign_of_mem _ ?_
    rw [← hpairs]
    exact mem_filterMap.mpr ⟨v, hvmem, by rw [hf, hkey, Option.map_some]⟩

end Extend

/-! ### After any number of texts -/

/-- **Models that are built from texts**, with the places where the units of the texts start. -/
inductive Built : List Nat → Model → Prop
  | empty : Built [] {}
  | extend {starts : List Nat} {m : Model} {text : String} {options : Options} {c : Compilation}
      (hm : Built starts m) (hc : m.extend text options = .ok c) :
      Built (m.units.length :: starts) c.model

/-- The units at two places are from the same text. -/
def Together (starts : List Nat) (i j : Nat) : Prop := ∀ n ∈ starts, n ≤ i ↔ n ≤ j

section Built

variable {starts : List Nat} {m : Model}

theorem Built.reached (h : Built starts m) : m.Reached := by
  induction h with
  | empty => exact .empty
  | extend _ hc ih => exact .extend ih hc

theorem Built.le_length (h : Built starts m) : ∀ n ∈ starts, n ≤ m.units.length := by
  induction h with
  | empty => exact nofun
  | extend hm hc ih =>
    have hle := hm.reached.settled.length_le hc
    exact forall_mem_cons.mpr ⟨hle, fun n hn => Nat.le_trans (ih n hn) hle⟩

theorem Built.together_late (h : Built starts m) (hi : m.units.length ≤ i)
    (hj : m.units.length ≤ j) : Together (m.units.length :: starts) i j := by
  refine forall_mem_cons.mpr ⟨iff_of_true hi hj, fun n hn => ?_⟩
  have hn := h.le_length n hn
  exact iff_of_true (Nat.le_trans hn hi) (Nat.le_trans hn hj)

theorem together_early (hk : k < n) : Together (n :: starts) k i ↔ i < n ∧ Together starts k i := by
  rw [Together, forall_mem_cons]
  refine and_congr_left' ⟨fun h => ?_, fun hi => ?_⟩
  · exact Nat.lt_of_not_le fun hi => Nat.not_le.mpr hk (h.mpr hi)
  · exact iff_of_false (Nat.not_le.mpr hk) (Nat.not_le.mpr hi)

section First

variable {d : Dimension} {k : Nat} {w : UnitEntry}

/-- **The units of a dimension are in two families**, if they reuse no name: one for the text of the
first of them all, and the family of the first for all later texts. -/
theorem Built.exists_family (h : Built starts m) (hk : IsFirst (HasDimension m.units d) k)
    (hw : HasDimension m.units d k w) :
    ∃ g, ∀ i u, HasDimension m.units d i u → u.redeclared = false →
      (Together starts k i → u.family = g) ∧ (¬ Together starts k i → u.family = w.family) := by
  induction h generalizing w with
  | empty => cases hw.1
  | @extend starts m text options c hm hc ih =>
    obtain ⟨n, hfirst, hlate⟩ := hm.reached.settled.exists_numbering hc
    by_cases hlt : k < m.units.length
    · obtain ⟨hk₀, w₀, hw₀, hwfamily, -⟩ := hm.reached.settled.isFirst_early hc hk hw hlt
      obtain ⟨g, hg⟩ := ih hk₀ hw₀
      refine ⟨g, fun i u hu hredeclared => ?_⟩
      rw [together_early hlt]
      by_cases hi : i < m.units.length
      · obtain ⟨u₀, hu₀, hufamily, huredeclared⟩ := hm.reached.settled.exists_early hc hi hu
        obtain ⟨hsame, hother⟩ := hg i u₀ hu₀ (huredeclared.trans hredeclared)
        rw [← hufamily, ← hwfamily]
        exact ⟨fun h => hsame h.2, fun h => hother fun htogether => h ⟨hi, htogether⟩⟩
      · refine ⟨fun h => absurd h.1 hi, fun _ => ?_⟩
        rw [← hlate d i u (Nat.le_of_not_lt hi) hu hredeclared, hfirst d k w₀ hk₀ hw₀, hwfamily]
    · -- all units of the dimension are late
      refine ⟨n.get? d, fun i u hu hredeclared => ?_⟩
      have hkm := Nat.le_of_not_lt hlt
      have him := Nat.le_trans hkm (hk.2 i u hu)
      exact ⟨fun _ => (hlate d i u him hu hredeclared).symm,
        fun h => absurd (hm.together_late hkm him) h⟩

/-- **A unit that reuses a name has none of the others of its text in its family.** -/
theorem Built.family_ne (h : Built starts m) (hk : IsFirst (HasDimension m.units d) k)
    (hw : HasDimension m.units d k w) (hreused : w.redeclared = true)
    (hu : HasDimension m.units d i u) (hredeclared : u.redeclared = false)
    (htogether : Together starts k i) : u.family ≠ w.family := by
  induction h generalizing w u with
  | empty => cases hw.1
  | @extend starts m text options c hm hc ih =>
    by_cases hlt : k < m.units.length
    · obtain ⟨hi, htogether⟩ := (together_early hlt).mp htogether
      obtain ⟨hk₀, w₀, hw₀, hwfamily, hwredeclared⟩ := hm.reached.settled.isFirst_early hc hk hw hlt
      obtain ⟨u₀, hu₀, hufamily, huredeclared⟩ := hm.reached.settled.exists_early hc hi hu
      rw [← hufamily, ← hwfamily]
      exact ih hk₀ hw₀ (hwredeclared.trans hreused) hu₀ (huredeclared.trans hredeclared) htogether
    · intro hfamily
      obtain ⟨us, ss, low, mid, high, hgrows⟩ := hm.reached.settled.exists_grows hc
      have hsome : w.family.isSome = true := by
        rw [(hm.reached.settled.extend hc).units w (mem_of_getElem? hw.1)]
        exact hw.2.1
      obtain ⟨f, hf⟩ := Option.isSome_iff_exists.mp hsome
      obtain rfl := hgrows.alone (Nat.le_of_not_lt hlt) hw.1 hreused hf hu.1 (hfamily.trans hf)
      have hwu : w = u := Option.some.inj (hw.1.symm.trans hu.1)
      rw [hwu, hredeclared] at hreused
      cases hreused

end First

/-- **Units of one dimension that reuse no name are in one family**, with one exception: the first
unit of the dimension reuses a name, and just one of the two is from its text. Then they are in two
families. -/
theorem Built.family_eq_iff_together (h : Built starts m) {d : Dimension} {i j : Nat}
    {u v : UnitEntry} (hu : HasDimension m.units d i u) (hv : HasDimension m.units d j v)
    (huredeclared : u.redeclared = false) (hvredeclared : v.redeclared = false) :
    ∃ k w, IsFirst (HasDimension m.units d) k ∧ HasDimension m.units d k w ∧
      (u.family = v.family ↔
        (w.redeclared = true → (Together starts k i ↔ Together starts k j))) := by
  obtain ⟨k, hk⟩ := exists_isFirst hu
  obtain ⟨w, hw⟩ := hk.1
  obtain ⟨g, hg⟩ := h.exists_family hk hw
  obtain ⟨huk, hu'⟩ := hg i u hu huredeclared
  obtain ⟨hvk, hv'⟩ := hg j v hv hvredeclared
  refine ⟨k, w, hk, hw, fun heq hreused => ⟨fun hik => ?_, fun hjk => ?_⟩, fun hiff => ?_⟩
  · by_contra hjk
    exact h.family_ne hk hw hreused hu huredeclared hik (heq.trans (hv' hjk))
  · by_contra hik
    exact h.family_ne hk hw hreused hv hvredeclared hjk (heq.symm.trans (hu' hik))
  · cases hreused : w.redeclared with
    | false =>
      -- the first unit is itself one of its text
      have hwg : w.family = g := (hg k w hw hreused).1 fun _ _ => Iff.rfl
      have hug : u.family = g := (em (Together starts k i)).elim huk fun h => (hu' h).trans hwg
      have hvg : v.family = g := (em (Together starts k j)).elim hvk fun h => (hv' h).trans hwg
      rw [hug, hvg]
    | true =>
      have hiff := hiff hreused
      by_cases hik : Together starts k i
      · rw [huk hik, hvk (hiff.mp hik)]
      · rw [hu' hik, hv' fun hjk => hik (hiff.mpr hjk)]

def meters : String := "unit Meter \"m\" = <Length>;"

/-- Meters once more, now for masses, and grams. -/
def grams : String := "unit Meter \"m\" = <Mass>; unit Gram \"g\" = <Mass>;"

def kilograms : String := "unit Kilogram \"kg\" = 1000 * Gram;"

/-- Grams and kilograms are in two families: the meters that are declared once more are the first
unit for masses, grams are declared with them, and kilograms join them later. -/
theorem Built.family_eq_iff_together_kilograms :
    ∃ starts m, Built starts m ∧
      m.units.map (fun u => (u.redeclared, u.family)) =
        [(false, some 0), (true, some 1), (false, some 2), (false, some 1)] ∧
      ∃ d u v, HasDimension m.units d 2 u ∧ HasDimension m.units d 3 v ∧
        ∃ k w, IsFirst (HasDimension m.units d) k ∧ HasDimension m.units d k w ∧
          w.redeclared = true ∧ ¬ (Together starts k 2 ↔ Together starts k 3) := by
  obtain ⟨c₁, hc₁, c₂, hc₂, c₃, hc₃, hunits⟩ :
      ∃ c₁, compile meters { kind := .decimal } = .ok c₁ ∧
        ∃ c₂, c₁.model.extend grams { kind := .decimal } = .ok c₂ ∧
        ∃ c₃, c₂.model.extend kilograms { kind := .decimal } = .ok c₃ ∧
          c₃.model.units.map (fun u => (u.valid, u.dimension.value, u.redeclared, u.family)) ==
            [(true, .basic .length, false, some 0), (true, .basic .mass, true, some 1),
              (true, .basic .mass, false, some 2), (true, .basic .mass, false, some 1)] := by
    decide +kernel
  rw [beq_iff_eq] at hunits
  have hfamilies := congrArg (List.map (·.2.2)) hunits
  rw [map_map] at hfamilies
  obtain ⟨u, hu, hu'⟩ := Option.map_eq_some_iff.mp
    (getElem?_map.symm.trans (congrArg (·[2]?) hunits))
  obtain ⟨v, hv, hv'⟩ := Option.map_eq_some_iff.mp
    (getElem?_map.symm.trans (congrArg (·[3]?) hunits))
  simp only [Prod.mk.injEq] at hu' hv'
  obtain ⟨hvalid, hdim, huredeclared, huf⟩ := hu'
  obtain ⟨hvalid', hdim', hvredeclared, hvf⟩ := hv'
  have hbuilt := Built.extend (.extend (.extend .empty hc₁) hc₂) hc₃
  have hu : HasDimension c₃.model.units (.basic .mass) 2 u := ⟨hu, hvalid, hdim⟩
  have hv : HasDimension c₃.model.units (.basic .mass) 3 v := ⟨hv, hvalid', hdim'⟩
  obtain ⟨k, w, hk, hw, hiff⟩ :=
    Built.family_eq_iff_together hbuilt hu hv huredeclared hvredeclared
  have hne : u.family ≠ v.family := by
    rw [huf, hvf]
    decide
  exact ⟨_, _, hbuilt, hfamilies, _, u, v, hu, hv, k, w, hk, hw,
    Classical.not_imp.mp fun h => hne (hiff.mpr h)⟩

end Built

end Quantity.Model
