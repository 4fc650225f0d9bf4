import Quantity.Proofs.Catalog.Late
import Quantity.Proofs.Model.Extended

/-!
# Fresh numbers of families

A text that comes after a catalog opens families, and their numbers follow the largest one in the
catalog, one after the other. There is an end of numbers, and a catalog may have come to it: then
there is no next number, or too few of them. `Catalog.extend_families` says when that is. Otherwise
the fresh numbers differ from each other and from all that are in use.
-/

namespace Quantity

open List

namespace Model

/-! ### New numbers -/

namespace Numbering

variable {κ : Type} [DecidableEq κ]

/-- The new numbers that members get, in order. -/
def given (n : Numbering κ) : List (Option κ) → List FamilyId
  | [] => []
  | key :: keys =>
    if (key.bind n.get?).isNone then n.next :: (n.take key).2.given keys
    else (n.take key).2.given keys

theorem length_given (n : Numbering κ) (keys : List (Option κ)) :
    (n.given keys).length = n.opened keys := by
  induction keys generalizing n with
  | nil => rfl
  | cons key keys ih =>
    rw [given, opened]
    split_ifs
    · rw [length_cons, ih, Nat.add_comm]
    · rw [ih, Nat.zero_add]

/-- **New numbers are in a row.** -/
theorem map_toNat_given {n : Numbering κ} {keys : List (Option κ)}
    (h : n.next.toNat + n.opened keys < UInt32.size) :
    (n.given keys).map UInt32.toNat = List.range' n.next.toNat (n.opened keys) := by
  induction keys generalizing n with
  | nil => rfl
  | cons key keys ih =>
    rw [opened_cons] at h ⊢
    have hnext := toNat_next_take n key (by omega)
    rw [given]
    split_ifs with hnone
    · have hone : n.opened [key] = 1 := by simp [opened, hnone]
      rw [hone] at h hnext ⊢
      rw [map_cons, ih (by omega), hnext, Nat.add_comm 1, range'_succ]
    · have hzero : n.opened [key] = 0 := by simp [opened, hnone]
      rw [hzero] at h hnext ⊢
      rw [ih (by omega), hnext, Nat.zero_add, Nat.add_zero]

/-- **A member has the number of a key that was known, or a new one.** -/
theorem mem_assign (n : Numbering κ) {keys : List (Option κ)} (h : f ∈ (n.assign keys).1) :
    (∃ k, n.get? k = some f) ∨ f ∈ n.given keys := by
  induction keys generalizing n with
  | nil => cases h
  | cons key keys ih =>
    rw [given]
    rcases n.take_cases key with ⟨g, hg, htake⟩ | ⟨hnone, hfst, -, hget⟩
    · rw [assign, htake] at h
      rw [hg, htake]
      rcases mem_cons.mp h with rfl | h
      · obtain ⟨k, -, hk⟩ := Option.bind_eq_some_iff.mp hg
        exact .inl ⟨k, hk⟩
      · exact ih n h
    · rw [hnone]
      rw [assign, hfst] at h
      rcases mem_cons.mp h with rfl | h
      · exact .inr (mem_cons_self ..)
      · rcases ih _ h with ⟨k, hk⟩ | hgiven
        · rw [hget] at hk
          split_ifs at hk
          · exact .inr (Option.some.inj hk ▸ mem_cons_self ..)
          · exact .inl ⟨k, hk⟩
        · exact .inr (mem_cons_of_mem _ hgiven)

theorem mem_assign_of_mem_given (n : Numbering κ) {keys : List (Option κ)}
    (h : f ∈ n.given keys) : f ∈ (n.assign keys).1 := by
  induction keys generalizing n with
  | nil => cases h
  | cons key keys ih =>
    rw [given] at h
    rcases n.take_cases key with ⟨g, hg, htake⟩ | ⟨hnone, hfst, -⟩
    · rw [hg] at h
      exact mem_cons_of_mem _ (ih _ h)
    · rw [hnone] at h
      rcases mem_cons.mp h with rfl | h
      · exact hfst ▸ mem_cons_self ..
      · exact mem_cons_of_mem _ (ih _ h)

theorem mem_or_mem_assign (n : Numbering κ) {used : List FamilyId}
    (hused : ∀ k f, (k, f) ∈ n.known → f ∈ used) (keys : List (Option κ)) (f : FamilyId) :
    f ∈ used ∨ f ∈ (n.assign keys).1 ↔ f ∈ used ∨ f ∈ n.given keys := by
  constructor
  · rintro (h | h)
    · exact .inl h
    · exact (n.mem_assign h).imp_left fun ⟨k, hk⟩ => hused k f (mem_of_get? hk)
  · exact Or.imp_right n.mem_assign_of_mem_given

end Numbering

/-! ### Families of a model -/

theorem mem_families_fill {α : Type} {waits : α → Bool} {put : α → FamilyId → α}
    {family : α → Option FamilyId} {xs : List α} {fs : List FamilyId}
    (hput : ∀ x f, family (put x f) = some f) (hnew : ∀ x ∈ xs, waits x = true → family x = none)
    (hlength : fs.length = (xs.filter waits).length) (f : FamilyId) :
    f ∈ (fill waits put xs fs).filterMap family ↔ f ∈ xs.filterMap family ∨ f ∈ fs := by
  induction xs generalizing fs with
  | nil =>
    rw [eq_nil_of_length_eq_zero hlength]
    simp [fill]
  | cons x xs ih =>
    obtain ⟨hx, hxs⟩ := forall_mem_cons.mp hnew
    cases hwaits : waits x with
    | false =>
      rw [filter_cons_of_neg (by simp [hwaits])] at hlength
      rw [fill_cons_of_neg hwaits]
      cases hfamily : family x with
      | none =>
        rw [filterMap_cons_none hfamily, filterMap_cons_none hfamily, ih hxs hlength]
      | some g =>
        rw [filterMap_cons_some hfamily, filterMap_cons_some hfamily, mem_cons,
          mem_cons, ih hxs hlength, or_assoc]
    | true =>
      rw [filter_cons_of_pos hwaits] at hlength
      cases fs with
      | nil => cases hlength
      | cons g fs =>
        rw [fill_cons_of_pos hwaits, filterMap_cons_some (hput x g),
          filterMap_cons_none (hx hwaits), mem_cons, mem_cons,
          ih hxs (Nat.succ.inj hlength), or_left_comm]

section Fresh

variable (firstFamily : FamilyId) (e : Model)

/-- **The fresh numbers** that the entries of a model get, those of units first. -/
def freshFamilies : List FamilyId :=
  (e.unitNumbering firstFamily).given e.unitKeys ++
    (e.scaleNumbering firstFamily).given (e.scaleKeys firstFamily)

theorem length_freshFamilies :
    (e.freshFamilies firstFamily).length = e.openedFamilies firstFamily := by
  rw [freshFamilies, length_append, Numbering.length_given, Numbering.length_given]
  rfl

theorem mem_families_numberedUnits (f : FamilyId) :
    f ∈ (e.numberedUnits firstFamily).filterMap (·.family) ↔
      f ∈ e.units.filterMap (·.family) ∨ f ∈ (e.unitNumbering firstFamily).given e.unitKeys := by
  have hput (u : UnitEntry) (g : FamilyId) : (u.inFamily g).family = some g := rfl
  refine (mem_families_fill hput (fun u _ hwaits => ?_) ?_ f).trans
    ((e.unitNumbering firstFamily).mem_or_mem_assign (fun dimension g hg => ?_) e.unitKeys f)
  · exact Option.isNone_iff_eq_none.mp (Bool.and_eq_true_iff.mp hwaits).2
  · rw [Numbering.length_assign, unitKeys, length_map]
  · obtain ⟨u, hu, hg, -⟩ := exists_of_mem_unitFamilies hg
    exact mem_filterMap.mpr ⟨u, hu, hg⟩

theorem mem_families_numberedScales (f : FamilyId) :
    f ∈ (e.numberedScales firstFamily).filterMap (·.family) ↔
      f ∈ e.scales.filterMap (·.family) ∨
        f ∈ (e.scaleNumbering firstFamily).given (e.scaleKeys firstFamily) := by
  have hput (s : ScaleEntry) (g : FamilyId) : (s.inFamily g).family = some g := rfl
  refine (mem_families_fill hput (fun s _ hwaits => ?_) ?_ f).trans
    ((e.scaleNumbering firstFamily).mem_or_mem_assign (fun key g hg => ?_)
      (e.scaleKeys firstFamily) f)
  · rw [ScaleEntry.waits, Bool.and_eq_true, Bool.and_eq_true] at hwaits
    exact Option.isNone_iff_eq_none.mp hwaits.1.2
  · rw [Numbering.length_assign, scaleKeys, length_map]
  · obtain ⟨s, hs, hg, -⟩ := exists_of_mem_scaleFamilies hg
    exact mem_filterMap.mpr ⟨s, hs, hg⟩

/-- **The families of a model, once all are numbered**: those it had, and the fresh ones. -/
theorem mem_familyIds_resolved (f : FamilyId) :
    f ∈ (e.resolved firstFamily).familyIds ↔
      f ∈ e.familyIds ∨ f ∈ e.freshFamilies firstFamily := by
  have hunits := congrArg (List.filterMap (·.family))
    (map_unlinked_units e (e.numberedUnits firstFamily) (e.numberedScales firstFamily))
  have hscales := congrArg (List.filterMap (·.family))
    (map_unlinked_scales e (e.numberedUnits firstFamily) (e.numberedScales firstFamily))
  rw [filterMap_map, filterMap_map] at hunits hscales
  have hids : (e.resolved firstFamily).familyIds =
      (e.numberedUnits firstFamily).filterMap (·.family) ++
        (e.numberedScales firstFamily).filterMap (·.family) :=
    congrArg₂ (· ++ ·) hunits hscales
  rw [hids, mem_append, mem_families_numberedUnits, mem_families_numberedScales, familyIds,
    freshFamilies, mem_append, mem_append]
  tauto

variable {firstFamily e}

/-- **Fresh numbers are in a row**, those of units before those of scales. -/
theorem HasRoom.map_toNat_freshFamilies (h : e.HasRoom firstFamily) :
    (e.freshFamilies firstFamily).map UInt32.toNat =
      List.range' (e.firstFree firstFamily).toNat (e.openedFamilies firstFamily) := by
  have hsize := h.firstFree.1
  have hnext := h.next_scaleNumbering
  have hfirst : (e.unitNumbering firstFamily).next = e.firstFree firstFamily := rfl
  unfold openedFamilies at hsize ⊢
  rw [freshFamilies, map_append, Numbering.map_toNat_given (by rw [hfirst]; omega),
    Numbering.map_toNat_given (by omega), hnext, hfirst, range'_append_1]

/-- No number of a model is the last one, once its families are numbered. -/
theorem HasRoom.lt_of_mem_resolved (h : e.HasRoom firstFamily)
    (hf : f ∈ (e.resolved firstFamily).familyIds) : f.toNat + 1 < UInt32.size := by
  obtain ⟨hsize, -, hids⟩ := h.firstFree
  rcases (e.mem_familyIds_resolved firstFamily f).mp hf with hf | hf
  · have := hids f hf
    omega
  · have hmem : f.toNat ∈ (e.freshFamilies firstFamily).map UInt32.toNat := mem_map_of_mem hf
    rw [h.map_toNat_freshFamilies, mem_range'_1] at hmem
    omega

end Fresh

end Model

/-! ### Behind a catalog -/

namespace Catalog

open Model Elaborate

variable {c : Catalog} {m : Model}

theorem familyIds_restored (c : Catalog) : c.restored.familyIds = c.families := by
  unfold restored familyIds families
  rw [filterMap_map, filterMap_map]
  exact congrArg₂ (· ++ ·) (congrFun filterMap_eq_map _) (congrFun filterMap_eq_map _)

/-- There is no next number exactly if the last one is in use. -/
theorem nextFamily?_eq_none_iff :
    c.nextFamily? = none ↔ ∃ f ∈ c.families, f.toNat + 1 = UInt32.size := by
  constructor
  · intro hnone
    unfold nextFamily? maxFamily? at hnone
    cases hmax : (c.units.map (·.family) ++ c.scales.map (·.family)).max? with
    | none =>
      rw [hmax] at hnone
      cases hnone
    | some largest =>
      rw [hmax] at hnone
      dsimp only at hnone
      unfold FamilyId.next? at hnone
      split_ifs at hnone with hlt
      have := largest.toNat_lt_size
      exact ⟨largest, max?_mem hmax, by omega⟩
  · rintro ⟨f, hf, hlast⟩
    cases hnext : c.nextFamily? with
    | none => rfl
    | some next =>
      have hlt := lt_of_nextFamily? hnext f hf
      have := next.toNat_lt_size
      omega

/-- **The families of what comes after a catalog.** There is a number to begin with unless the last
one is in use. From there on a text can be put behind the catalog, whatever is wrong with it, exactly
if there is a number left behind those of the families that it opens. Then its families are those of
the catalog and fresh ones, which are in a row, all different, and none of them is in use. -/
theorem extend_families (hm : c.restore = .ok m) (text : String) (options : Options) :
    (c.nextFamily? = none ↔ ∃ f ∈ c.families, f.toNat + 1 = UInt32.size) ∧
      (c.nextFamily? = some options.firstFamily →
        ∃ e ds, elaborate options m.beginLate (Declarations.read options.source text).2
            (Declarations.read options.source text).1 = .ok (e, ds) ∧
          ((∃ d, m.extend text options = .ok d) ↔ options.firstFamily.toNat +
            (e.freshFamilies options.firstFamily).length < UInt32.size) ∧
          ∀ d, m.extend text options = .ok d →
            (∀ f, f ∈ d.model.familyIds ↔
              f ∈ c.families ∨ f ∈ e.freshFamilies options.firstFamily) ∧
            (e.freshFamilies options.firstFamily).Nodup ∧
            (∀ f ∈ e.freshFamilies options.firstFamily, f ∉ c.families) ∧
            (e.freshFamilies options.firstFamily).map UInt32.toNat =
              List.range' options.firstFamily.toNat
                (e.freshFamilies options.firstFamily).length) := by
  refine ⟨nextFamily?_eq_none_iff, fun hnext => ?_⟩
  obtain ⟨⟨e, ds⟩, he⟩ := exists_elaborate options m.beginLate
    (Declarations.read options.source text).2 (Declarations.read_isProduct options.source text)
  obtain ⟨us, ss, hadds⟩ := adds_of_elaborate rfl he
  have hids : e.familyIds = c.families := by
    rw [familyIds_adds hadds, restore_eq_ok hm, familyIds_restored]
  have hfirst : c.nextFamily = options.firstFamily := by rw [nextFamily, hnext, Option.getD_some]
  have hfree := firstFree_nextFamily hids
  rw [hfirst] at hfree
  have hlt := lt_of_nextFamily? hnext
  have hroom : e.HasRoom options.firstFamily ↔ options.firstFamily.toNat +
      (e.freshFamilies options.firstFamily).length < UInt32.size := by
    rw [length_freshFamilies]
    refine ⟨And.left, fun hsize => ⟨hsize, fun f hf => ?_⟩⟩
    have := hlt f (hids ▸ hf)
    omega
  refine ⟨e, ds, he, ?_, fun d hd => ?_⟩
  · rw [extend_eq he, ← hroom]
    split_ifs with h
    · exact iff_of_true ⟨_, rfl⟩ h
    · exact iff_of_false nofun h
  · rw [extend_eq he] at hd
    split_ifs at hd with h
    cases hd
    have hrow := h.map_toNat_freshFamilies
    rw [hfree, ← length_freshFamilies] at hrow
    refine ⟨fun f => ?_, Nodup.of_map UInt32.toNat (hrow ▸ nodup_range' _), fun f hf hused => ?_, hrow⟩
    · rw [← hids]
      exact mem_familyIds_resolved _ e f
    · have hmem : f.toNat ∈ (e.freshFamilies options.firstFamily).map UInt32.toNat :=
        mem_map_of_mem hf
      rw [hrow, mem_range'_1] at hmem
      have := hlt f hused
      omega

/-- Meters and grams in decimals, in families of their own. -/
def metersAndGramsIn (lengths masses : FamilyId) : Catalog :=
  { units :=
      [{ name := "Meter"
         module := "si"
         kind := .decimal
         dimension := .basic .length
         factor := .decimal .one
         format := ""
         tags := ["m"]
         family := lengths },
       { name := "Gram"
         module := "si"
         kind := .decimal
         dimension := .basic .mass
         factor := .decimal .one
         format := ""
         tags := ["g"]
         family := masses }]
    modules := ["si"] }

/-- Seconds, feet, heights without a point of reference, and moles. -/
def timesAndHeights : String :=
  "unit Second \"s\" = <Time>; unit Foot \"ft\" = 0.3 * Meter; scale Height = 0 from Foot;
   unit Mole \"mol\" = <AmountOfSubstance>;"

/-- Feet join meters, and three families are opened behind the largest one. -/
theorem extend_families_timesAndHeights :
    ∃ m e ds d, (metersAndGramsIn 7 2).restore = .ok m ∧
      elaborate { kind := .decimal, firstFamily := 8 } m.beginLate
        (Declarations.read none timesAndHeights).2 (Declarations.read none timesAndHeights).1 =
          .ok (e, ds) ∧
      m.extend timesAndHeights { kind := .decimal, firstFamily := 8 } = .ok d ∧
      e.freshFamilies 8 = [8, 9, 10] ∧
      ∀ f, f ∈ d.model.familyIds ↔ f ∈ [7, 2] ∨ f ∈ [8, 9, 10] := by
  obtain ⟨m, hm, ⟨e, ds⟩, he, hfresh⟩ : ∃ m, (metersAndGramsIn 7 2).restore = .ok m ∧
      ∃ r, elaborate { kind := .decimal, firstFamily := 8 } m.beginLate
          (Declarations.read none timesAndHeights).2
          (Declarations.read none timesAndHeights).1 = .ok r ∧
        r.1.freshFamilies 8 = [8, 9, 10] := by
    decide +kernel
  obtain ⟨-, hfamilies⟩ :=
    @extend_families _ m hm timesAndHeights { kind := .decimal, firstFamily := 8 }
  obtain ⟨e', ds', he', hroom, hids⟩ := hfamilies (by decide)
  rw [he] at he'
  cases he'
  rw [hfresh] at hroom hids
  obtain ⟨d, hd⟩ := hroom.mpr (by decide)
  exact ⟨m, e, ds, d, hm, he, hd, hfresh, (hids d hd).1⟩

/-- **Numbers come to an end.** If meters have the last number then there is none to begin with, and
if they have the last but one then there is none behind that of seconds. -/
theorem extend_families_exhausted :
    ((metersAndGramsIn 4294967295 0).restore.isOk = true ∧
        (metersAndGramsIn 4294967295 0).nextFamily? = none) ∧
      ∃ m, (metersAndGramsIn 4294967294 0).restore = .ok m ∧
        (metersAndGramsIn 4294967294 0).nextFamily? = some 4294967295 ∧
        m.extend "unit Second \"s\" = <Time>;"
          { kind := .decimal, firstFamily := 4294967295 } = .error .familyOverflow := by
  refine ⟨by decide +kernel, ?_⟩
  obtain ⟨m, hm, hfails⟩ : ∃ m, (metersAndGramsIn 4294967294 0).restore = .ok m ∧
      (m.extend "unit Second \"s\" = <Time>;"
        { kind := .decimal, firstFamily := 4294967295 }).isOk = false := by
    decide +kernel
  cases hextend : m.extend "unit Second \"s\" = <Time>;"
      { kind := .decimal, firstFamily := 4294967295 } with
  | ok d =>
    rw [hextend] at hfails
    cases hfails
  | error error =>
    rw [familyOverflow_of_extend hextend] at hextend
    exact ⟨m, hm, by decide, hextend⟩

end Catalog

end Quantity
