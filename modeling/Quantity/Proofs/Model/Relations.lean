import Quantity.Proofs.Model.Linked
import Mathlib.Data.List.Nodup
import Mathlib.Data.List.Lattice

/-!
# Units that cannot be related

Family by family, the units are reported whose factor in terms of the prime cannot be worked out.
Every unit is in one family at most, so that it is reported at most once (`nodup_relationFaults`).
In a connected model these are the units that have a prime but no factor relative to it
(`mem_relationFaults_iff`).
-/

namespace Quantity.Model

open List

/-! ### Ids in order -/

theorem mem_insertId : g ∈ insertId f ids ↔ g = f ∨ g ∈ ids := by
  induction ids with
  | nil => simp [insertId]
  | cons h ids ih =>
    unfold insertId
    split_ifs with hlt heq
    · simp
    · subst heq
      simp
    · rw [mem_cons, mem_cons]
      tauto

theorem pairwise_insertId (f : FamilyId) (h : ids.Pairwise (· < ·)) :
    (insertId f ids).Pairwise (· < ·) := by
  induction ids with
  | nil => exact pairwise_singleton _ _
  | cons g ids ih =>
    obtain ⟨hg, hids⟩ := pairwise_cons.mp h
    unfold insertId
    split_ifs with hlt heq
    · refine pairwise_cons.mpr ⟨fun x hx => ?_, h⟩
      rcases mem_cons.mp hx with rfl | hx
      · exact hlt
      · exact UInt32.lt_trans hlt (hg x hx)
    · exact h
    · refine pairwise_cons.mpr ⟨fun x hx => ?_, ih hids⟩
      rcases mem_insertId.mp hx with rfl | hx
      · exact UInt32.lt_of_le_of_ne (UInt32.not_lt.mp hlt) (Ne.symm heq)
      · exact hg x hx

theorem mem_sortedIds : f ∈ sortedIds ids ↔ f ∈ ids := by
  induction ids with
  | nil => rfl
  | cons g ids ih =>
    rw [sortedIds, foldr_cons, mem_insertId, mem_cons]
    exact or_congr_right ih

theorem pairwise_sortedIds (ids : List FamilyId) : (sortedIds ids).Pairwise (· < ·) := by
  induction ids with
  | nil => exact List.Pairwise.nil
  | cons g ids ih => exact pairwise_insertId g ih

/-! ### Faults -/

/-- What is reported about the unit that cannot be related to the prime. -/
def relationReport (u prime : UnitEntry) (e : NumeralError) : Diagnostic :=
  { stage := .semantic
    span := u.origin.span?
    message := "Cannot relate '" ++ u.name ++ "' to '" ++ prime.name ++ "': " ++ e.message }

/-- The members of a family that cannot be related to the first one, with what is reported. -/
def familyFaults (units : List UnitEntry) (f : FamilyId) : List (Nat × Diagnostic) :=
  (members validFamily units f).filterMap fun i =>
    (relationError? units (members validFamily units f) i).map (i, ·)

/-- The units that cannot be related to their primes, with what is reported. -/
def relationFaults (units : List UnitEntry) : List (Nat × Diagnostic) :=
  (sortedIds (units.filterMap validFamily)).flatMap (familyFaults units)

theorem map_snd_relationFaults (units : List UnitEntry) :
    (relationFaults units).map (·.2) = relationErrors units := by
  unfold relationFaults relationErrors familyFaults
  rw [map_flatMap]
  refine congrArg (List.flatMap · _) (funext fun f => ?_)
  rw [map_filterMap]
  refine congrArg (List.filterMap · _) (funext fun i => ?_)
  rw [Option.map_map]
  exact Option.map_id'

theorem mem_members {units : List UnitEntry} :
    i ∈ members validFamily units f ↔ ∃ u, units[i]? = some u ∧ validFamily u = some f := by
  rw [members, mem_places]
  simp

theorem mem_relationFaults {units : List UnitEntry} :
    (i, why) ∈ relationFaults units ↔ ∃ u f, units[i]? = some u ∧ validFamily u = some f ∧
      relationError? units (members validFamily units f) i = some why := by
  unfold relationFaults familyFaults
  simp only [mem_flatMap, mem_sortedIds, mem_filterMap, mem_members,
    Option.map_eq_some_iff, Prod.mk.injEq]
  constructor
  · rintro ⟨f, -, _, ⟨u, hu, hf⟩, _, hwhy, rfl, rfl⟩
    exact ⟨u, f, hu, hf, hwhy⟩
  · rintro ⟨u, f, hu, hf, hwhy⟩
    exact ⟨f, ⟨u, mem_of_getElem? hu, hf⟩, i, ⟨u, hu, hf⟩, why, hwhy, rfl, rfl⟩

theorem map_fst_sublist (g : Nat → Option α) (is : List Nat) :
    ((is.filterMap fun i => (g i).map (i, ·)).map (·.1)).Sublist is := by
  induction is with
  | nil => exact .slnil
  | cons i is ih =>
    cases hg : g i with
    | none =>
      rw [filterMap_cons_none (by rw [hg]; rfl)]
      exact ih.cons i
    | some x =>
      rw [filterMap_cons_some (by rw [hg]; rfl)]
      exact ih.cons_cons i

/-- **No unit is reported twice**: it is in one family at most. -/
theorem nodup_relationFaults (units : List UnitEntry) :
    ((relationFaults units).map (·.1)).Nodup := by
  have hsub (f : FamilyId) :
      ((familyFaults units f).map (·.1)).Sublist (members validFamily units f) :=
    map_fst_sublist _ _
  rw [relationFaults, map_flatMap, nodup_flatMap]
  constructor
  · exact fun f _ => (pairwise_places units _).imp Nat.ne_of_lt |>.sublist (hsub f)
  · refine (pairwise_sortedIds _).imp fun {f g} hfg i hi hi' => ?_
    obtain ⟨u, hu, hf⟩ := mem_members.mp ((hsub f).subset hi)
    obtain ⟨v, hv, hg⟩ := mem_members.mp ((hsub g).subset hi')
    rw [hu] at hv
    cases hv
    rw [hf] at hg
    cases hg
    exact UInt32.lt_irrefl _ hfg

/-! ### Connected models -/

theorem relativeFactorAt?_eq_some_iff {units : List UnitEntry} :
    relativeFactorAt? units family i = some result ↔ ∃ j u prime, family.head? = some j ∧ i ≠ j ∧
      units[i]? = some u ∧ units[j]? = some prime ∧ relativeFactor u prime = result := by
  unfold relativeFactorAt?
  simp only [Option.bind_eq_bind, Option.bind_eq_some_iff]
  constructor
  · rintro ⟨j, hj, u, hu, prime, hprime, hresult⟩
    split_ifs at hresult with hij
    exact ⟨j, u, prime, hj, hij, hu, hprime, Option.some.inj hresult⟩
  · rintro ⟨j, u, prime, hj, hij, hu, hprime, rfl⟩
    exact ⟨j, hj, u, hu, prime, hprime, if_neg hij⟩

theorem relationError?_eq_some_iff {units : List UnitEntry} :
    relationError? units family i = some why ↔ ∃ j u prime e, family.head? = some j ∧ i ≠ j ∧
      units[i]? = some u ∧ units[j]? = some prime ∧ relativeFactor u prime = .error e ∧
      why = relationReport u prime e := by
  unfold relationError?
  simp only [Option.bind_eq_bind, Option.bind_eq_some_iff, relativeFactorAt?_eq_some_iff]
  constructor
  · rintro ⟨_, ⟨j, u, prime, hj, hij, hu, hprime, rfl⟩, h⟩
    split at h
    · cases h
    · rename_i e he
      simp only [hu, hj, hprime, Option.bind_some, Option.some.injEq] at h
      exact ⟨j, u, prime, e, hj, hij, hu, hprime, he, h.symm⟩
  · rintro ⟨j, u, prime, e, hj, hij, hu, hprime, he, rfl⟩
    refine ⟨_, ⟨j, u, prime, hj, hij, hu, hprime, rfl⟩, ?_⟩
    rw [he]
    simp only [hu, hj, hprime, Option.bind_some]
    rfl

theorem relationError?_of_unlinked (h : us.map (·.unlinked) = vs.map (·.unlinked))
    (hwhy : relationError? us family i = some why) : relationError? vs family i = some why := by
  obtain ⟨j, u, prime, e, hj, hij, hu, hprime, he, rfl⟩ := relationError?_eq_some_iff.mp hwhy
  obtain ⟨v, hv, hvu⟩ := exists_getElem?_of_map_eq h hu
  obtain ⟨prime', hprime', heq⟩ := exists_getElem?_of_map_eq h hprime
  have hfactor : relativeFactor v prime' = relativeFactor u prime := by
    show relativeFactor v.unlinked prime'.unlinked = relativeFactor u.unlinked prime.unlinked
    rw [hvu, heq]
  have hreport : relationReport u prime e = relationReport v prime' e := by
    show relationReport u.unlinked prime.unlinked e = relationReport v.unlinked prime'.unlinked e
    rw [hvu, heq]
  exact relationError?_eq_some_iff.mpr
    ⟨j, v, prime', e, hj, hij, hv, hprime', hfactor.trans he, hreport⟩

theorem relationErrors_congr (h : us.map (·.unlinked) = vs.map (·.unlinked)) :
    relationErrors us = relationErrors vs := by
  have hfamilies : us.map validFamily = vs.map validFamily := by
    have := congrArg (List.map validFamily) h
    rwa [map_map, map_map] at this
  have hids (zs : List UnitEntry) :
      zs.filterMap validFamily = (zs.map validFamily).filterMap id := by
    rw [filterMap_map]
    rfl
  have herror : relationError? us = relationError? vs := by
    funext family i
    refine Option.ext fun why => ⟨relationError?_of_unlinked h, relationError?_of_unlinked h.symm⟩
  unfold relationErrors
  rw [hids, hfamilies, ← hids, members_congr hfamilies, herror]

section Linked

variable {c : Model} (hc : c.Linked)
  (hfamily : ∀ u ∈ c.units, u.valid = true → u.family.isSome = true)

include hc hfamily

theorem Linked.exists_family {i : Nat} {u : UnitEntry} (hu : c.units[i]? = some u)
    (hvalid : u.valid = true) : ∃ f, validFamily u = some f ∧
      (∀ j, u.prime = some j ↔ (members validFamily c.units f).head? = some j ∧ i ≠ j) ∧
      u.relativeFactor =
        (relativeFactorAt? c.units (members validFamily c.units f) i).bind (·.toOption) := by
  obtain ⟨f, hf⟩ := Option.isSome_iff_exists.mp (hfamily u (mem_of_getElem? hu) hvalid)
  have hvf : validFamily u = some f := by
    rw [validFamily, if_pos hvalid, hf]
  have hlink := hc.linkUnit_eq hu
  rw [linkUnit_of_some hvf] at hlink
  refine ⟨f, hvf, fun j => ?_, (congrArg UnitEntry.relativeFactor hlink).symm⟩
  rw [← congrArg UnitEntry.prime hlink]
  rw [primeOf?, Option.filter_eq_some_iff, decide_eq_true_eq, ne_comm]

/-- **The factor of a unit is given in terms of its prime**, if it can be worked out. -/
theorem Linked.relativeFactor_eq {i j : Nat} (hu : c.units[i]? = some u) (hvalid : u.valid = true)
    (hj : u.prime = some j) :
    ∃ prime, c.units[j]? = some prime ∧
      u.relativeFactor = (relativeFactor u prime).toOption := by
  obtain ⟨f, hf, hprime, hfactor⟩ := hc.exists_family hfamily hu hvalid
  obtain ⟨hhead, hij⟩ := (hprime j).mp hj
  obtain ⟨prime, hprime', -⟩ := mem_members.mp (mem_of_head? hhead)
  have hat := relativeFactorAt?_eq_some_iff.mpr
    ⟨j, u, prime, hhead, hij, hu, hprime', rfl⟩
  refine ⟨prime, hprime', ?_⟩
  rw [hfactor, hat]
  rfl

/-- **The units that are reported are those that have a prime but cannot be related to it.** -/
theorem mem_relationFaults_iff :
    (i, why) ∈ relationFaults c.units ↔ ∃ u j prime e, c.units[i]? = some u ∧ u.valid = true ∧
      u.prime = some j ∧ c.units[j]? = some prime ∧ relativeFactor u prime = .error e ∧
      why = relationReport u prime e := by
  rw [mem_relationFaults]
  constructor
  · rintro ⟨u, f, hu, hf, hwhy⟩
    obtain ⟨j, _, prime, e, hhead, hij, hu', hprime, he, rfl⟩ :=
      relationError?_eq_some_iff.mp hwhy
    rw [hu] at hu'
    cases hu'
    have hvalid : u.valid = true := by
      unfold validFamily at hf
      split_ifs at hf with hvalid
      exact hvalid
    obtain ⟨f', hf', hprime', -⟩ := hc.exists_family hfamily hu hvalid
    rw [hf] at hf'
    cases hf'
    exact ⟨u, j, prime, e, hu, hvalid, (hprime' j).mpr ⟨hhead, hij⟩, hprime, he, rfl⟩
  · rintro ⟨u, j, prime, e, hu, hvalid, hj, hprime, he, rfl⟩
    obtain ⟨f, hf, hprime', -⟩ := hc.exists_family hfamily hu hvalid
    obtain ⟨hhead, hij⟩ := (hprime' j).mp hj
    exact ⟨u, f, hu, hf, relationError?_eq_some_iff.mpr
      ⟨j, u, prime, e, hhead, hij, hu, hprime, he, rfl⟩⟩

end Linked

end Quantity.Model
