import Quantity.Proofs.Model.Family
import Quantity.Proofs.Model.Operations

/-!
# Connected models

The connections of an entry are worked out from a few facts about the members of its family:
`linkUnit_congr` and `linkScale_congr` say which. None of these facts is a connection, so nothing
changes when a model that was connected is connected again (`linked_resolved`). If entries are put
behind others, these only get more relatives (`linkUnit_append` and `linkScale_append`).
-/

namespace Quantity

open List

def UnitEntry.unlinked (u : UnitEntry) : UnitEntry :=
  { u with prime := none, relativeFactor := none, relatives := [], operations := [] }

def ScaleEntry.unlinked (s : ScaleEntry) : ScaleEntry := { s with prime := none, relatives := [] }

theorem UnitEntry.eq_of_unlinked_eq {u v : UnitEntry} (h : u.unlinked = v.unlinked) :
    u.family = v.family ∧ u.valid = v.valid ∧ u.dimension = v.dimension ∧
      u.redeclared = v.redeclared := by
  unfold unlinked at h
  simp only [mk.injEq] at h
  tauto

theorem ScaleEntry.eq_of_unlinked_eq {s t : ScaleEntry} (h : s.unlinked = t.unlinked) :
    s.family = t.family ∧ s.valid = t.valid := by
  unfold unlinked at h
  simp only [mk.injEq] at h
  tauto

namespace Model

/-! ### What connections depend on -/

/-- What the connections of a unit depend on. -/
def linkKey (u : UnitEntry) : Option FamilyId × String × NumericKind × Numeral × Bool :=
  (validFamily u, u.name, u.kind, u.factor.value, u.factor.constant)

section Congr

variable {us vs : List UnitEntry} {ss ts : List ScaleEntry}

theorem relativeFactor_congr (hu : linkKey u = linkKey u')
    (hprime : linkKey prime = linkKey prime') :
    relativeFactor u prime = relativeFactor u' prime' := by
  simp only [linkKey, Prod.mk.injEq] at hu hprime
  obtain ⟨-, huname, hukind, huvalue, huconstant⟩ := hu
  obtain ⟨-, hpname, hpkind, hpvalue, hpconstant⟩ := hprime
  unfold relativeFactor
  rw [huname, hukind, huvalue, huconstant, hpname, hpkind, hpvalue, hpconstant]

theorem members_congr {xs ys : List α} (h : xs.map family = ys.map family) :
    members family xs = members family ys := by
  funext f
  have hmap (zs : List α) : members family zs f = places (zs.map family) (· = some f) := by
    rw [places_map, members]
  rw [hmap, hmap, h]

theorem map_validFamily_of_linkKey (h : us.map linkKey = vs.map linkKey) :
    us.map validFamily = vs.map validFamily := by
  have hmap := congrArg (List.map Prod.fst) h
  rwa [map_map, map_map] at hmap

theorem relativeFactorAt?_congr (h : us.map linkKey = vs.map linkKey) (family : List Nat)
    (i : Nat) :
    relativeFactorAt? us family i = relativeFactorAt? vs family i := by
  unfold relativeFactorAt?
  simp only [Option.bind_eq_bind]
  refine congrArg (family.head?.bind ·) (funext fun first => ?_)
  rcases getElem?_cases_of_map_eq h i with ⟨hu, hu'⟩ | ⟨u, u', hu, hu', hukey⟩
  · simp only [hu, hu', Option.bind_none]
  · rcases getElem?_cases_of_map_eq h first with ⟨hp, hp'⟩ | ⟨prime, prime', hp, hp', hpkey⟩
    · simp only [hu, hu', hp, hp', Option.bind_none, Option.bind_some]
    · simp only [hu, hu', hp, hp', Option.bind_some, relativeFactor_congr hukey hpkey]

theorem linkUnit_congr (h : us.map linkKey = vs.map linkKey) : linkUnit us = linkUnit vs := by
  funext u i
  unfold linkUnit
  simp only [relativeFactorAt?_congr h, members_congr (map_validFamily_of_linkKey h)]

theorem linkScale_congr (h : ss.map validScaleFamily = ts.map validScaleFamily) :
    linkScale ss = linkScale ts := by
  funext s i
  unfold linkScale
  rw [members_congr h]

/-- A unit can be related to its prime, or there is none: exactly then nothing is reported. -/
theorem relationError?_eq_none_iff :
    relationError? us family i = none ↔ ∀ e, relativeFactorAt? us family i ≠ some (.error e) := by
  unfold relationError?
  cases hat : relativeFactorAt? us family i with
  | none => simp
  | some result =>
    cases result with
    | ok factor => simp
    | error e =>
      -- a factor was worked out, so the unit and its prime are there
      obtain ⟨first, hfirst, hat⟩ := Option.bind_eq_some_iff.mp hat
      obtain ⟨u, hu, hat⟩ := Option.bind_eq_some_iff.mp hat
      obtain ⟨prime, hprime, -⟩ := Option.bind_eq_some_iff.mp hat
      simp [hfirst, hu, hprime]

/-- Units that can be related do not become strangers by a change of texts. -/
theorem relationErrors_eq_nil_congr (h : us.map linkKey = vs.map linkKey)
    (hnil : relationErrors us = []) : relationErrors vs = [] := by
  have hfamilies (zs : List UnitEntry) :
      zs.filterMap validFamily = (zs.map validFamily).reduceOption := by
    show _ = (zs.map validFamily).filterMap id
    rw [filterMap_map]
    rfl
  unfold relationErrors at hnil ⊢
  rw [hfamilies, map_validFamily_of_linkKey h, ← hfamilies,
    members_congr (map_validFamily_of_linkKey h), flatMap_eq_nil_iff] at hnil
  rw [flatMap_eq_nil_iff]
  intro f hf
  refine filterMap_eq_nil_iff.mpr fun i hi => relationError?_eq_none_iff.mpr ?_
  rw [← relativeFactorAt?_congr h]
  exact relationError?_eq_none_iff.mp (filterMap_eq_nil_iff.mp (hnil f hf) i hi)

end Congr

/-! ### Connecting again -/

theorem linkUnit_of_none (h : validFamily u = none) (units : List UnitEntry) (i : Nat) :
    linkUnit units u i = u := by
  unfold linkUnit
  rw [h]

theorem linkUnit_of_some (h : validFamily u = some f) (units : List UnitEntry) (i : Nat) :
    linkUnit units u i =
      { u with
        prime := primeOf? (members validFamily units f) i
        relatives := (members validFamily units f).filter (· ≠ i)
        relativeFactor :=
          (relativeFactorAt? units (members validFamily units f) i).bind (·.toOption) } := by
  unfold linkUnit
  rw [h]

theorem linkScale_of_none (h : validScaleFamily s = none) (scales : List ScaleEntry) (i : Nat) :
    linkScale scales s i = s := by
  unfold linkScale
  rw [h]

theorem linkScale_of_some (h : validScaleFamily s = some f) (scales : List ScaleEntry) (i : Nat) :
    linkScale scales s i =
      { s with
        prime := primeOf? (members validScaleFamily scales f) i
        relatives := (members validScaleFamily scales f).filter (· ≠ i) } := by
  unfold linkScale
  rw [h]

@[simp] theorem unlinked_linkUnit (units : List UnitEntry) (u : UnitEntry) (i : Nat) :
    (linkUnit units u i).unlinked = u.unlinked := by
  unfold linkUnit
  split <;> rfl

@[simp] theorem unlinked_linkScale (scales : List ScaleEntry) (s : ScaleEntry) (i : Nat) :
    (linkScale scales s i).unlinked = s.unlinked := by
  unfold linkScale
  split <;> rfl

/-- A unit that is connected stays as it is, whatever its operations are. -/
theorem linkUnit_linkUnit (units : List UnitEntry) (u : UnitEntry) (i : Nat)
    (operations : List Nat) :
    linkUnit units { linkUnit units u i with operations } i =
      { linkUnit units u i with operations } := by
  cases hfamily : validFamily u with
  | none =>
    rw [linkUnit_of_none hfamily]
    exact linkUnit_of_none (by exact hfamily) units i
  | some f =>
    rw [linkUnit_of_some hfamily]
    exact linkUnit_of_some (by exact hfamily) units i

theorem linkScale_linkScale (scales : List ScaleEntry) (s : ScaleEntry) (i : Nat) :
    linkScale scales (linkScale scales s i) i = linkScale scales s i := by
  cases hfamily : validScaleFamily s with
  | none => rw [linkScale_of_none hfamily, linkScale_of_none hfamily]
  | some f =>
    rw [linkScale_of_some hfamily]
    exact linkScale_of_some (by exact hfamily) scales i

/-- **The entries of a model are connected**: to connect them again changes nothing. -/
structure Linked (m : Model) : Prop where
  families : m.connected m.units m.scales = m
  operations : m.resolveOperations = m

theorem Linked.linkUnit_eq {m : Model} (h : m.Linked) (hu : m.units[i]? = some u) :
    linkUnit m.units u i = u := by
  have hunits := congrArg (fun m => m.units[i]?) h.families
  simpa [connected, hu] using hunits

theorem Linked.linkScale_eq {m : Model} (h : m.Linked) (hs : m.scales[i]? = some s) :
    linkScale m.scales s i = s := by
  have hscales := congrArg (fun m => m.scales[i]?) h.families
  simpa [connected, hs] using hscales

theorem Linked.operationTable_eq {m : Model} (h : m.Linked) :
    operationTable m.units = m.operations :=
  congrArg Model.operations h.operations

/-- The operations of a unit are those of the table that involve it. -/
theorem Linked.places_involves {m : Model} (h : m.Linked) (hu : m.units[i]? = some u) :
    places m.operations (·.involves i) = u.operations := by
  have hunits := congrArg (fun m => m.units[i]?.map (·.operations)) h.operations
  simpa [resolveOperations, hu, h.operationTable_eq] using hunits

section Resolved

variable (m : Model) (units : List UnitEntry) (scales : List ScaleEntry)

theorem map_unlinked_units :
    (m.connected units scales).resolveOperations.units.map (·.unlinked) =
      units.map (·.unlinked) := by
  refine Eq.trans ?_ (map_mapIdx_eq (fun i u => unlinked_linkUnit units u i) units)
  refine map_mapIdx_eq ?_ _
  exact fun _ _ => rfl

theorem map_unlinked_scales :
    (m.connected units scales).resolveOperations.scales.map (·.unlinked) =
      scales.map (·.unlinked) :=
  map_mapIdx_eq (fun i s => unlinked_linkScale scales s i) scales

theorem map_linkKey_connected :
    (m.connected units scales).resolveOperations.units.map linkKey = units.map linkKey := by
  have hmap := congrArg (List.map linkKey) (map_unlinked_units m units scales)
  rw [map_map, map_map] at hmap
  exact hmap

theorem map_validScaleFamily_connected :
    (m.connected units scales).resolveOperations.scales.map validScaleFamily =
      scales.map validScaleFamily := by
  have hmap := congrArg (List.map validScaleFamily) (map_unlinked_scales m units scales)
  rw [map_map, map_map] at hmap
  exact hmap

/-- **A model that was connected is connected.** -/
theorem linked_resolved : (m.connected units scales).resolveOperations.Linked where
  families := by
    have hunits := linkUnit_congr (map_linkKey_connected m units scales)
    have hscales := linkScale_congr (map_validScaleFamily_connected m units scales)
    rw [connected, hunits, hscales]
    congr 1
    · refine ext_getElem? fun i => ?_
      simp only [connected, resolveOperations, getElem?_mapIdx, Option.map_map]
      refine congrArg (Option.map · units[i]?) (funext fun u => ?_)
      exact linkUnit_linkUnit units u i _
    · refine ext_getElem? fun i => ?_
      simp only [connected, resolveOperations, getElem?_mapIdx, Option.map_map]
      refine congrArg (Option.map · scales[i]?) (funext fun s => ?_)
      exact linkScale_linkScale scales s i
  operations := by
    have htable := operationTable_congr (map_core_resolveOperations (m.connected units scales))
    rw [resolveOperations, htable]
    congr 1
    refine ext_getElem? fun i => ?_
    simp only [resolveOperations, getElem?_mapIdx, Option.map_map]
    rfl

end Resolved

/-! ### Late entries -/

section Append

variable {α : Type} {family : α → Option FamilyId} {xs ys : List α} {x : α} {i : Nat} {f : FamilyId}

theorem exists_members_append (hx : xs[i]? = some x) (hf : family x = some f) (ys : List α) :
    ∃ added, (∀ j ∈ added, xs.length ≤ j ∧ j < (xs ++ ys).length) ∧
      (members family (xs ++ ys) f).head? = (members family xs f).head? ∧
      (members family (xs ++ ys) f).filter (· ≠ i) =
        (members family xs f).filter (· ≠ i) ++ added := by
  have hlt := lt_of_getElem? hx
  have hmem : i ∈ members family xs f := mem_places.mpr ⟨x, hx, by simpa using hf⟩
  have happend : members family (xs ++ ys) f =
      members family xs f ++ (members family ys f).map (xs.length + ·) :=
    places_append xs ys _
  have hadded : ∀ j ∈ (members family ys f).map (xs.length + ·),
      xs.length ≤ j ∧ j < (xs ++ ys).length := by
    intro j hj
    obtain ⟨k, hk, rfl⟩ := mem_map.mp hj
    obtain ⟨y, hy, -⟩ := mem_places.mp hk
    have := lt_of_getElem? hy
    rw [length_append]
    omega
  refine ⟨_, hadded, ?_, ?_⟩
  · rw [happend, head?_append_of_ne_nil _ (ne_nil_of_mem hmem)]
  · have hne : ∀ j ∈ (members family ys f).map (xs.length + ·), decide (j ≠ i) = true := by
      intro j hj
      have := (hadded j hj).1
      simp only [decide_eq_true_eq]
      omega
    rw [happend, filter_append, filter_eq_self.mpr hne]

end Append

theorem relativeFactorAt?_append (hhead : family'.head? = family.head?)
    (hfamily : ∀ j ∈ family, j < us.length) (hi : i < us.length) (late : List UnitEntry) :
    relativeFactorAt? (us ++ late) family' i = relativeFactorAt? us family i := by
  unfold relativeFactorAt?
  rw [hhead, getElem?_append_left hi]
  cases hfirst : family.head? with
  | none => rfl
  | some first =>
    simp only [Option.bind_eq_bind, Option.bind_some]
    rw [getElem?_append_left (hfamily first (mem_of_head? hfirst))]

/-- **A unit only gets more relatives from late units.** -/
theorem linkUnit_append (hu : us[i]? = some u) (late : List UnitEntry) :
    ∃ added, (∀ j ∈ added, us.length ≤ j ∧ j < (us ++ late).length) ∧
      linkUnit (us ++ late) u i =
        { linkUnit us u i with relatives := (linkUnit us u i).relatives ++ added } := by
  cases hfamily : validFamily u with
  | none =>
    refine ⟨[], nofun, ?_⟩
    rw [linkUnit_of_none hfamily, linkUnit_of_none hfamily, append_nil]
  | some f =>
    obtain ⟨added, hadded, hhead, hfilter⟩ := exists_members_append hu hfamily late
    have hmembers : ∀ j ∈ members validFamily us f, j < us.length := by
      intro j hj
      obtain ⟨v, hv, -⟩ := mem_places.mp hj
      exact lt_of_getElem? hv
    have hfactor := relativeFactorAt?_append hhead hmembers (lt_of_getElem? hu) late
    refine ⟨added, hadded, ?_⟩
    rw [linkUnit_of_some hfamily, linkUnit_of_some hfamily, hfactor, hfilter, primeOf?, hhead]
    rfl

theorem linkScale_append (hs : ss[i]? = some s) (late : List ScaleEntry) :
    ∃ added, (∀ j ∈ added, ss.length ≤ j ∧ j < (ss ++ late).length) ∧
      linkScale (ss ++ late) s i =
        { linkScale ss s i with relatives := (linkScale ss s i).relatives ++ added } := by
  cases hfamily : validScaleFamily s with
  | none =>
    refine ⟨[], nofun, ?_⟩
    rw [linkScale_of_none hfamily, linkScale_of_none hfamily, append_nil]
  | some f =>
    obtain ⟨added, hadded, hhead, hfilter⟩ := exists_members_append hs hfamily late
    refine ⟨added, hadded, ?_⟩
    rw [linkScale_of_some hfamily, linkScale_of_some hfamily, hfilter, primeOf?, hhead]
    rfl

end Model

end Quantity
