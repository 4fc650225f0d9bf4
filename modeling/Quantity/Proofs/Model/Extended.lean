import Quantity.Proofs.Compile
import Quantity.Proofs.Model.Added
import Quantity.Proofs.Model.Linked

/-!
# Models that are extended

All entries of a model are put into families and connected again when late ones are added to it.
The entries that were there before keep their families, since nobody who has one waits for another
(`exists_late_units` and `exists_late_scales`), and they keep their connections, since late members
of a family are listed behind them. `Joined` says where the numbers of late entries come from.
-/

namespace Quantity.Model

open Elaborate List

/-! ### Late entries -/

/-- **A settled model**: an entry is in a family exactly if it has a meaning, and all entries are
connected. -/
structure Settled (m : Model) : Prop where
  units : ∀ u ∈ m.units, u.family.isSome = u.valid
  scales : ∀ s ∈ m.scales, s.family.isSome = s.valid
  linked : m.Linked

theorem Settled.waits_unit {m : Model} (h : m.Settled) (hu : u ∈ m.units) : u.waits = false := by
  rw [UnitEntry.waits, ← h.units u hu]
  cases u.family <;> rfl

theorem Settled.waits_scale {m : Model} (h : m.Settled) (hs : s ∈ m.scales)
    (units : List UnitEntry) : s.waits units = false := by
  rw [ScaleEntry.waits, ← h.scales s hs]
  cases s.family <;> rfl

/-- Entries in families stay as they are, and late ones with a meaning get into families. -/
theorem exists_fill_append {α κ : Type} {waits valid : α → Bool} {put : α → FamilyId → α}
    {family : α → Option FamilyId} {key : α → κ} {xs ys : List α}
    (hold : ∀ x ∈ xs, waits x = false) (hnew : ∀ y ∈ ys, family y = none ∧ waits y = valid y)
    (hput : ∀ x f, family (put x f) = some f ∧ valid (put x f) = valid x ∧ key (put x f) = key x)
    (hlength : fs.length = ((xs ++ ys).filter waits).length) :
    ∃ late, fill waits put (xs ++ ys) fs = xs ++ late ∧
      (∀ y ∈ late, (family y).isSome = valid y) ∧
      late.filterMap (fun y => (family y).map (key y, ·)) =
        (((xs ++ ys).filter waits).map key).zip fs := by
  have hold' : xs.filter waits = [] := filter_eq_nil_iff.mpr fun x hx => by simp [hold x hx]
  rw [filter_append, hold', nil_append] at hlength ⊢
  refine ⟨_, fill_append hold ys fs, fun y hy => ?_,
    filterMap_fill (fun x hx => (hnew x hx).1) (fun x _ f => ⟨(hput x f).1, (hput x f).2.2⟩) hlength⟩
  rcases mem_fill hlength hy with ⟨hy, hwaits⟩ | ⟨x, hx, hwaits, f, rfl⟩
  · rw [(hnew y hy).1, ← (hnew y hy).2, hwaits]
    rfl
  · rw [(hput x f).1, (hput x f).2.1, ← (hnew x hx).2, hwaits]
    rfl

section Late

variable {m e : Model} {us : List UnitEntry} {ss : List ScaleEntry} (hm : m.Settled)
  (h : Adds m.beginLate e us ss) (firstFamily : FamilyId)
include hm h

/-- **The units of a settled model stay as they are, and late ones get into families.** -/
theorem exists_late_units :
    ∃ late, e.numberedUnits firstFamily = m.units ++ late ∧
      (∀ v ∈ late, v.family.isSome = v.valid) ∧
      late.filterMap (fun v => v.family.map (v.familyKey, ·)) =
        e.unitKeys.zip ((e.unitNumbering firstFamily).assign e.unitKeys).1 := by
  have hunits : e.units = m.units ++ us := by rw [h.eq]; rfl
  rw [numberedUnits, unitKeys, hunits]
  refine exists_fill_append (fun u hu => hm.waits_unit hu) (fun u hu => ⟨h.units u hu, ?_⟩)
    (fun _ _ => ⟨rfl, rfl, rfl⟩) ?_
  · rw [UnitEntry.waits, h.units u hu, Option.isNone_none, Bool.and_true]
  · rw [Numbering.length_assign, length_map]

theorem isSome_family_numberedUnits :
    ∀ v ∈ e.numberedUnits firstFamily, v.family.isSome = v.valid := by
  obtain ⟨late, hunits, hlate, -⟩ := exists_late_units hm h firstFamily
  rw [hunits]
  exact forall_mem_append.mpr ⟨hm.units, hlate⟩

theorem isSome_unitFamily?_numberedUnits (hs : s ∈ ss) (hvalid : s.valid = true) :
    (unitFamily? (e.numberedUnits firstFamily) s).isSome = true := by
  obtain ⟨i, u, hi, hu, huvalid⟩ : ∃ i u, s.unit = some i ∧ (m.units ++ us)[i]? = some u ∧
      u.valid = true := (h.scales s hs).2 hvalid
  have hvalids : (m.units ++ us).map (·.valid) = (e.numberedUnits firstFamily).map (·.valid) := by
    refine Eq.trans ?_ (map_fill ?_ _ _).symm
    · rw [h.eq]
      rfl
    · exact fun _ _ => rfl
  obtain ⟨v, hv, hvu⟩ := exists_getElem?_of_map_eq hvalids hu
  have hfamily := isSome_family_numberedUnits hm h firstFamily v (mem_of_getElem? hv)
  show (s.unit.bind fun i => ((e.numberedUnits firstFamily)[i]?).bind (·.family)).isSome = true
  rw [hi, Option.bind_some, hv, Option.bind_some, hfamily, hvu]
  exact huvalid

/-- **The scales of a settled model stay as they are, and late ones get into families.** -/
theorem exists_late_scales :
    ∃ late, e.numberedScales firstFamily = m.scales ++ late ∧
      (∀ t ∈ late, t.family.isSome = t.valid) ∧
      late.filterMap (fun t => t.family.map (t.familyKey (e.numberedUnits firstFamily), ·)) =
        (e.scaleKeys firstFamily).zip
          ((e.scaleNumbering firstFamily).assign (e.scaleKeys firstFamily)).1 := by
  have hscales : e.scales = m.scales ++ ss := by rw [h.eq]; rfl
  rw [numberedScales, scaleKeys, hscales]
  refine exists_fill_append (fun s hs => hm.waits_scale hs _) (fun s hs => ⟨(h.scales s hs).1, ?_⟩)
    (fun _ _ => ⟨rfl, rfl, rfl⟩) ?_
  · cases hvalid : s.valid with
    | false => simp [ScaleEntry.waits, hvalid]
    | true =>
      rw [ScaleEntry.waits, (h.scales s hs).1, hvalid,
        isSome_unitFamily?_numberedUnits hm h firstFamily hs hvalid]
      rfl
  · rw [Numbering.length_assign, length_map]

theorem isSome_family_numberedScales :
    ∀ t ∈ e.numberedScales firstFamily, t.family.isSome = t.valid := by
  obtain ⟨late, hscales, hlate, -⟩ := exists_late_scales hm h firstFamily
  rw [hscales]
  exact forall_mem_append.mpr ⟨hm.scales, hlate⟩

end Late

/-! ### Where numbers come from -/

section Joined

variable {α κ : Type} {family : α → Option FamilyId} {key share : α → Option κ}
  {early late : List α} {low high : Nat}

/-- **Where late entries have their numbers from**: an entry joins the family of an earlier one that
shares its key, or its family has a new number, from `low` on and below `high`. Entries that are in
a new family together have the same key. -/
structure Joined (family : α → Option FamilyId) (key share : α → Option κ) (early late : List α)
    (low high : Nat) : Prop where
  cases : ∀ v ∈ late, ∀ f, family v = some f →
    (∃ u ∈ early, family u = some f ∧ ∃ k, key v = some k ∧ share u = some k) ∨
      low ≤ f.toNat ∧ f.toNat < high
  same : late.Pairwise fun v w => ∀ f, family v = some f → family w = some f →
    low ≤ f.toNat → f.toNat < high → (key v).isSome = true ∧ key v = key w

theorem joined_of_assigned [DecidableEq κ] {n : Numbering κ}
    (h : n.Assigned limit (late.filterMap fun v => (family v).map (key v, ·)))
    (hknown : ∀ k f, (k, f) ∈ n.known → ∃ u ∈ early, family u = some f ∧ share u = some k)
    (hnew : ∀ f : FamilyId, n.next.toNat ≤ f.toNat → f.toNat < limit → low ≤ f.toNat ∧ f.toNat <
      high) (hearly : ∀ u ∈ early, ∀ f, family u = some f → f.toNat < low) :
    Joined family key share early late low high := by
  have hjoins {v : α} {f g : FamilyId} (hg : (key v).bind n.get? = some g) (hfg : f = g) :
      ∃ u ∈ early, family u = some f ∧ ∃ k, key v = some k ∧ share u = some k := by
    obtain ⟨k, hk, hget⟩ := Option.bind_eq_some_iff.mp hg
    obtain ⟨u, hu, hfamily, hshare⟩ := hknown k g (Numbering.mem_of_get? hget)
    exact ⟨u, hu, hfg ▸ hfamily, k, hk, hshare⟩
  have hmem {v : α} {f : FamilyId} (hv : v ∈ late) (hf : family v = some f) :
      (key v, f) ∈ late.filterMap fun v => (family v).map (key v, ·) :=
    mem_filterMap.mpr ⟨v, hv, by rw [hf, Option.map_some]⟩
  have hunknown {v : α} {f : FamilyId} (hv : v ∈ late) (hf : family v = some f)
      (hlow : low ≤ f.toNat) (hhigh : f.toNat < high) : (key v).bind n.get? = none := by
    cases hget : (key v).bind n.get? with
    | none => rfl
    | some g =>
      obtain ⟨u, hu, hfamily, -⟩ := hjoins hget (h.known _ (hmem hv hf) g hget)
      have := hearly u hu f hfamily
      omega
  constructor
  case cases =>
    intro v hv f hf
    cases hget : (key v).bind n.get? with
    | none =>
      obtain ⟨hlow, hhigh⟩ := h.new _ (hmem hv hf) hget
      exact .inr (hnew f hlow hhigh)
    | some g => exact .inl (hjoins hget (h.known _ (hmem hv hf) g hget))
  case same =>
    refine (pairwise_filterMap.mp h.same).imp_of_mem ?_
    intro v w hv hw hsame f hvf hwf hlow hhigh
    have hvw := hsame (key v, f) (by rw [hvf, Option.map_some]) (key w, f)
      (by rw [hwf, Option.map_some])
    exact (hvw (hunknown hv hvf hlow hhigh) (hunknown hw hwf hlow hhigh)).mp rfl

/-- A late entry is in a family of earlier ones or in a new one, however the entries are connected
later. -/
theorem Joined.late_cases {xs : List α} {g : α → β}
    (h : Joined family key share early late low high) (hmap : xs.map g = (early ++ late).map g)
    (hg : ∀ x y, g x = g y → family x = family y) (hi : early.length ≤ i) (hx : xs[i]? = some x)
    (hf : family x = some f) : (∃ u ∈ early, family u = some f) ∨ low ≤ f.toNat := by
  obtain ⟨w, hw, hwx⟩ := exists_getElem?_of_map_eq hmap hx
  rw [getElem?_append_right hi] at hw
  rw [← hg w x hwx] at hf
  rcases h.cases w (mem_of_getElem? hw) f hf with ⟨u, hu, huf, -⟩ | ⟨hlow, -⟩
  · exact .inl ⟨u, hu, huf⟩
  · exact .inr hlow

/-- Entries at different places that are in a new family together have the same key. -/
theorem Joined.same_of_ne (h : Joined family key share early late low high) {i j : Nat}
    (hij : i ≠ j) (hv : late[i]? = some v) (hw : late[j]? = some w) (hvf : family v = some f)
    (hwf : family w = some f) (hlow : low ≤ f.toNat) (hhigh : f.toNat < high) :
    (key v).isSome = true ∧ key v = key w := by
  obtain ⟨hi, rfl⟩ := List.getElem?_eq_some_iff.mp hv
  obtain ⟨hj, rfl⟩ := List.getElem?_eq_some_iff.mp hw
  have hsame := pairwise_iff_getElem.mp h.same
  rcases Nat.lt_or_gt_of_ne hij with hlt | hgt
  · exact hsame i j hi hj hlt f hvf hwf hlow hhigh
  · obtain ⟨hsome, hkey⟩ := hsame j i hj hi hgt f hwf hvf hlow hhigh
    exact ⟨hkey ▸ hsome, hkey.symm⟩

end Joined

section Room

variable {m e : Model} {us : List UnitEntry} {ss : List ScaleEntry} {firstFamily : FamilyId}
  (hm : m.Settled) (h : Adds m.beginLate e us ss) (hroom : e.HasRoom firstFamily)

include h in
theorem familyIds_adds : e.familyIds = m.familyIds := by
  have hus : us.filterMap (·.family) = [] := filterMap_eq_nil_iff.mpr h.units
  have hss : ss.filterMap (·.family) = [] :=
    filterMap_eq_nil_iff.mpr fun s hs => (h.scales s hs).1
  rw [h.eq]
  show (m.units ++ us).filterMap (·.family) ++ (m.scales ++ ss).filterMap (·.family) = _
  rw [filterMap_append, filterMap_append, hus, hss, append_nil, append_nil]
  rfl

include hroom in
theorem HasRoom.next_scaleNumbering :
    (e.scaleNumbering firstFamily).next.toNat =
      (e.firstFree firstFamily).toNat + (e.unitNumbering firstFamily).opened e.unitKeys := by
  have hsize := hroom.firstFree.1
  unfold openedFamilies at hsize
  refine Numbering.toNat_next_assign ?_
  show (e.firstFree firstFamily).toNat + _ < _
  omega

include hm h hroom

theorem HasRoom.joined_units :
    ∃ late, e.numberedUnits firstFamily = m.units ++ late ∧
      Joined (·.family) (·.familyKey) (fun u => some u.dimension.value) m.units late
        (e.firstFree firstFamily).toNat
        ((e.firstFree firstFamily).toNat + (e.unitNumbering firstFamily).opened e.unitKeys) := by
  obtain ⟨late, hunits, -, hpairs⟩ := exists_late_units hm h firstFamily
  obtain ⟨hsize, -, hfree⟩ := hroom.firstFree
  unfold openedFamilies at hsize
  have hassigned := @Numbering.assigned_assign _ _ (e.unitNumbering firstFamily) e.unitKeys
    (by show (e.firstFree firstFamily).toNat + _ < _; omega)
  rw [← hpairs] at hassigned
  refine ⟨late, hunits, joined_of_assigned hassigned ?_ (fun _ hlow hhigh => ⟨hlow, hhigh⟩) ?_⟩
  · intro dimension f hmem
    obtain ⟨u, hu, hf, rfl⟩ := exists_of_mem_unitFamilies hmem
    exact ⟨u, h.mem_of_family_unit hu hf, hf, rfl⟩
  · intro u hu f hf
    refine hfree f ?_
    rw [familyIds_adds h]
    exact mem_append_left _ (mem_filterMap.mpr ⟨u, hu, hf⟩)

theorem HasRoom.joined_scales :
    ∃ late, e.numberedScales firstFamily = m.scales ++ late ∧
      Joined (·.family) (·.familyKey (e.numberedUnits firstFamily))
        (·.familyKey (e.numberedUnits firstFamily)) m.scales late
        ((e.firstFree firstFamily).toNat + (e.unitNumbering firstFamily).opened e.unitKeys)
        ((e.firstFree firstFamily).toNat + e.openedFamilies firstFamily) := by
  obtain ⟨late, hscales, -, hpairs⟩ := exists_late_scales hm h firstFamily
  obtain ⟨hsize, -, hfree⟩ := hroom.firstFree
  have hnext := hroom.next_scaleNumbering
  unfold openedFamilies at hsize ⊢
  have hassigned := @Numbering.assigned_assign _ _ (e.scaleNumbering firstFamily)
    (e.scaleKeys firstFamily) (by omega)
  rw [← hpairs] at hassigned
  refine ⟨late, hscales, joined_of_assigned hassigned ?_ ?_ ?_⟩
  · intro k f hmem
    obtain ⟨s, hs, hf, hkey⟩ := exists_of_mem_scaleFamilies hmem
    exact ⟨s, h.mem_of_family_scale hs hf, hf, hkey⟩
  · intro f hlow hhigh
    exact ⟨by omega, by omega⟩
  · intro s hs f hf
    refine Nat.lt_of_lt_of_le (hfree f ?_) (Nat.le_add_right _ _)
    rw [familyIds_adds h]
    exact mem_append_right _ (mem_filterMap.mpr ⟨s, hs, hf⟩)

end Room

/-! ### One extension -/

section Extend

variable {m : Model} {text : String} {options : Options} {c : Compilation}

/-- What is left of an extension: the entries are numbered, and connected. -/
theorem exists_extended (hc : m.extend text options = .ok c) :
    ∃ e ds us ss, elaborate options m.beginLate (Declarations.read options.source text).2
        (Declarations.read options.source text).1 = .ok (e, ds) ∧ Adds m.beginLate e us ss ∧
      e.HasRoom options.firstFamily ∧
      c.model = (e.connected (e.numberedUnits options.firstFamily)
        (e.numberedScales options.firstFamily)).resolveOperations := by
  obtain ⟨e, ds, he, hroom, rfl⟩ := exists_finished hc
  obtain ⟨us, ss, hadds⟩ := adds_of_elaborate rfl he
  exact ⟨e, ds, us, ss, he, hadds, hroom, rfl⟩

/-- **A settled model stays settled.** -/
theorem Settled.extend (hm : m.Settled) (hc : m.extend text options = .ok c) : c.model.Settled := by
  obtain ⟨e, ds, us, ss, -, hadds, -, hmodel⟩ := exists_extended hc
  rw [hmodel]
  refine ⟨fun v hv => ?_, fun t ht => ?_, linked_resolved _ _ _⟩
  · obtain ⟨w, hw, hwv⟩ := exists_mem_of_map_eq (map_unlinked_units e _ _) hv
    obtain ⟨hfamily, hvalid, -⟩ := UnitEntry.eq_of_unlinked_eq hwv
    rw [← hfamily, ← hvalid]
    exact isSome_family_numberedUnits hm hadds _ w hw
  · obtain ⟨w, hw, hwt⟩ := exists_mem_of_map_eq (map_unlinked_scales e _ _) ht
    obtain ⟨hfamily, hvalid⟩ := ScaleEntry.eq_of_unlinked_eq hwt
    rw [← hfamily, ← hvalid]
    exact isSome_family_numberedScales hm hadds _ w hw

/-- **The units of a settled model are left alone**, but for more relatives and operations. -/
theorem Settled.exists_kept_unit (hm : m.Settled) (hc : m.extend text options = .ok c) {i : Nat}
    {u : UnitEntry} (hu : m.units[i]? = some u) :
    ∃ added operations,
      c.model.units[i]? = some { u with relatives := u.relatives ++ added, operations } ∧
        ∀ j ∈ added, m.units.length ≤ j ∧ j < c.model.units.length := by
  obtain ⟨e, ds, us, ss, -, hadds, -, hmodel⟩ := exists_extended hc
  obtain ⟨late, hunits, -⟩ := exists_late_units hm hadds options.firstFamily
  obtain ⟨added, hadded, hlink⟩ := linkUnit_append hu late
  rw [hm.linked.linkUnit_eq hu] at hlink
  have hlength : c.model.units.length = (m.units ++ late).length := by
    rw [hmodel, hunits]
    simp [connected, resolveOperations]
  have hget : (m.units ++ late)[i]? = some u :=
    (List.getElem?_append_left (lt_of_getElem? hu)).trans hu
  have hkept := congrArg (fun m => m.units[i]?) hmodel
  simp only [hunits, connected, resolveOperations, getElem?_mapIdx, hget, Option.map_some,
    hlink] at hkept
  exact ⟨added, _, hkept, hlength ▸ hadded⟩

/-- **The scales of a settled model are left alone**, but for more relatives. -/
theorem Settled.exists_kept_scale (hm : m.Settled) (hc : m.extend text options = .ok c) {i : Nat}
    (hs : m.scales[i]? = some s) :
    ∃ added, c.model.scales[i]? = some { s with relatives := s.relatives ++ added } ∧
      ∀ j ∈ added, m.scales.length ≤ j ∧ j < c.model.scales.length := by
  obtain ⟨e, ds, us, ss, -, hadds, -, hmodel⟩ := exists_extended hc
  obtain ⟨late, hscales, -⟩ := exists_late_scales hm hadds options.firstFamily
  obtain ⟨added, hadded, hlink⟩ := linkScale_append hs late
  rw [hm.linked.linkScale_eq hs] at hlink
  have hlength : c.model.scales.length = (m.scales ++ late).length := by
    rw [hmodel, hscales]
    simp [connected, resolveOperations]
  have hget : (m.scales ++ late)[i]? = some s :=
    (List.getElem?_append_left (lt_of_getElem? hs)).trans hs
  refine ⟨added, ?_, hlength ▸ hadded⟩
  rw [hmodel, hscales]
  simp only [connected, resolveOperations, getElem?_mapIdx, hget, Option.map_some, hlink]

/-- **What becomes of a model**: late units and scales are behind its own, and have
new numbers from two ranges that are behind all numbers in use. -/
structure Grows (firstFamily : FamilyId) (m c : Model) (us : List UnitEntry) (ss : List ScaleEntry)
    (low mid high : Nat) : Prop where
  units : c.units.map (·.unlinked) = (m.units ++ us).map (·.unlinked)
  scales : c.scales.map (·.unlinked) = (m.scales ++ ss).map (·.unlinked)
  joinedUnits : Joined (·.family) (·.familyKey) (fun u => some u.dimension.value) m.units us low mid
  joinedScales : Joined (·.family) (·.familyKey (m.units ++ us)) (·.familyKey (m.units ++ us))
    m.scales ss mid high
  le : low ≤ mid ∧ mid ≤ high
  free : firstFamily.toNat ≤ low ∧ ∀ f ∈ m.familyIds, f.toNat < low

theorem Settled.exists_grows (hm : m.Settled) (hc : m.extend text options = .ok c) :
    ∃ us ss low mid high, Grows options.firstFamily m c.model us ss low mid high := by
  obtain ⟨e, ds, _, _, -, hadds, hroom, hmodel⟩ := exists_extended hc
  obtain ⟨us, hunits, hus⟩ := hroom.joined_units hm hadds
  obtain ⟨ss, hscales, hss⟩ := hroom.joined_scales hm hadds
  have hfree := hroom.firstFree.2
  rw [familyIds_adds hadds] at hfree
  refine ⟨us, ss, _, _, _, ?_, ?_, hus, hunits ▸ hss, ⟨Nat.le_add_right _ _, ?_⟩, hfree⟩
  · rw [hmodel, ← hunits]
    exact map_unlinked_units e _ _
  · rw [hmodel, ← hscales]
    exact map_unlinked_scales e _ _
  · exact Nat.add_le_add_left (Nat.le_add_right _ _) _

end Extend

end Quantity.Model
