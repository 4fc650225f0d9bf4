import Quantity.Proofs.Model.Numbering

/-!
# Families of late entries

Entries that have a family keep it, so numbering works on the late entries alone. They get their
numbers by what they share with their family: units by their dimension, and scales by their
point of reference over a family of units.
-/

namespace Quantity

open List

def UnitEntry.inFamily (u : UnitEntry) (f : FamilyId) : UnitEntry := { u with family := some f }

def ScaleEntry.inFamily (s : ScaleEntry) (f : FamilyId) : ScaleEntry :=
  { s with family := some f }

def UnitEntry.familyKey (u : UnitEntry) : Option Dimension :=
  if u.redeclared then none else some u.dimension.value

/-- What a scale shares with its family, over units with families. -/
def ScaleEntry.familyKey (units : List UnitEntry) (s : ScaleEntry) : Option (String × FamilyId) :=
  s.refPoint.bind fun point => (Model.unitFamily? units s).map (point, ·)

theorem UnitEntry.dimension_of_familyKey {u : UnitEntry} {dimension : Dimension}
    (h : u.familyKey = some dimension) : u.dimension.value = dimension := by
  unfold familyKey at h
  split_ifs at h
  exact Option.some.inj h

/-- Whether the unit is to get a family. -/
def UnitEntry.waits (u : UnitEntry) : Bool := u.valid && u.family.isNone

/-- Whether the scale is to get a family, over units with families. -/
def ScaleEntry.waits (units : List UnitEntry) (s : ScaleEntry) : Bool :=
  s.valid && s.family.isNone && (Model.unitFamily? units s).isSome

theorem UnitEntry.waits_of_isSome {u : UnitEntry} (h : u.family.isSome = true) :
    u.waits = false := by
  rw [waits, ← Option.not_isSome, h, Bool.not_true, Bool.and_false]

theorem ScaleEntry.waits_of_isSome {s : ScaleEntry} (h : s.family.isSome = true)
    (units : List UnitEntry) : s.waits units = false := by
  rw [waits, ← Option.not_isSome, h, Bool.not_true, Bool.and_false, Bool.false_and]

namespace Model

/-! ### Handing out numbers -/

/-- Hand out numbers to the entries that wait for one, in order. -/
def fill {α : Type} (waits : α → Bool) (put : α → FamilyId → α) : List α → List FamilyId → List α
  | [], _ => []
  | x :: xs, fs =>
    if waits x then
      match fs with
      | [] => x :: xs
      | f :: fs => put x f :: fill waits put xs fs
    else x :: fill waits put xs fs

section Fill

variable {α κ : Type} {waits : α → Bool} {put : α → FamilyId → α} {xs : List α}
  {fs : List FamilyId}

theorem fill_cons_of_neg {x : α} (h : waits x = false) :
    fill waits put (x :: xs) fs = x :: fill waits put xs fs := by
  cases fs <;> simp [fill, h]

theorem fill_cons_of_pos {x : α} (h : waits x = true) {f : FamilyId} :
    fill waits put (x :: xs) (f :: fs) = put x f :: fill waits put xs fs := by
  simp [fill, h]

theorem fill_append (h : ∀ x ∈ xs, waits x = false) (ys : List α) (fs : List FamilyId) :
    fill waits put (xs ++ ys) fs = xs ++ fill waits put ys fs := by
  induction xs with
  | nil => rfl
  | cons x xs ih =>
    obtain ⟨hx, hxs⟩ := forall_mem_cons.mp h
    rw [cons_append, fill_cons_of_neg hx, ih hxs, cons_append]

theorem fill_eq_zip (h : ∀ x ∈ xs, waits x = true) (hlength : fs.length = xs.length) :
    fill waits put xs fs = (xs.zip fs).map fun p => put p.1 p.2 := by
  induction xs generalizing fs with
  | nil => rfl
  | cons x xs ih =>
    obtain ⟨hx, hxs⟩ := forall_mem_cons.mp h
    cases fs with
    | nil => cases hlength
    | cons f fs =>
      rw [fill_cons_of_pos hx]
      exact congrArg (put x f :: ·) (ih hxs (Nat.succ.inj hlength))

theorem map_fill {β : Type} {g : α → β} (hg : ∀ x f, g (put x f) = g x) (xs : List α)
    (fs : List FamilyId) : (fill waits put xs fs).map g = xs.map g := by
  induction xs generalizing fs with
  | nil => rfl
  | cons x xs ih =>
    cases hx : waits x with
    | false => rw [fill_cons_of_neg hx, map_cons, map_cons, ih]
    | true =>
      cases fs with
      | nil => rw [fill, if_pos hx]
      | cons f fs => rw [fill_cons_of_pos hx, map_cons, map_cons, ih, hg]

theorem mem_fill (hlength : fs.length = (xs.filter waits).length) (hy : y ∈ fill waits put xs fs) :
    y ∈ xs ∧ waits y = false ∨ ∃ x ∈ xs, waits x = true ∧ ∃ f, y = put x f := by
  induction xs generalizing fs with
  | nil => cases hy
  | cons x xs ih =>
    have hlater (h : y ∈ xs ∧ waits y = false ∨ ∃ x ∈ xs, waits x = true ∧ ∃ f, y = put x f) :
        y ∈ x :: xs ∧ waits y = false ∨ ∃ x' ∈ x :: xs, waits x' = true ∧ ∃ f, y = put x' f := by
      rcases h with ⟨hy, hwaits⟩ | ⟨x', hx', h⟩
      · exact .inl ⟨mem_cons_of_mem _ hy, hwaits⟩
      · exact .inr ⟨x', mem_cons_of_mem _ hx', h⟩
    cases hx : waits x with
    | false =>
      rw [filter_cons_of_neg (by simp [hx])] at hlength
      rw [fill_cons_of_neg hx] at hy
      rcases mem_cons.mp hy with rfl | hy
      · exact .inl ⟨mem_cons_self .., hx⟩
      · exact hlater (ih hlength hy)
    | true =>
      rw [filter_cons_of_pos hx] at hlength
      cases fs with
      | nil => cases hlength
      | cons f fs =>
        rw [fill_cons_of_pos hx] at hy
        rcases mem_cons.mp hy with rfl | hy
        · exact .inr ⟨x, mem_cons_self .., hx, f, rfl⟩
        · exact hlater (ih (Nat.succ.inj hlength) hy)

/-- The members with their numbers, if nobody has had one before. -/
theorem filterMap_fill {family : α → Option FamilyId} {key : α → κ}
    (hnew : ∀ x ∈ xs, family x = none)
    (hput : ∀ x ∈ xs, ∀ f, family (put x f) = some f ∧ key (put x f) = key x)
    (hlength : fs.length = (xs.filter waits).length) :
    (fill waits put xs fs).filterMap (fun x => (family x).map (key x, ·)) =
      ((xs.filter waits).map key).zip fs := by
  induction xs generalizing fs with
  | nil => rfl
  | cons x xs ih =>
    obtain ⟨hx, hxs⟩ := forall_mem_cons.mp hnew
    obtain ⟨hput, hputs⟩ := forall_mem_cons.mp hput
    cases hwaits : waits x with
    | false =>
      rw [filter_cons_of_neg (by simp [hwaits])] at hlength ⊢
      rw [fill_cons_of_neg hwaits, filterMap_cons_none (by rw [hx, Option.map_none])]
      exact ih hxs hputs hlength
    | true =>
      rw [filter_cons_of_pos hwaits] at hlength ⊢
      cases fs with
      | nil => cases hlength
      | cons f fs =>
        obtain ⟨hfamily, hkey⟩ := hput f
        rw [fill_cons_of_pos hwaits,
          filterMap_cons_some (by rw [hfamily, Option.map_some, hkey])]
        exact congrArg ((key x, f) :: ·) (ih hxs hputs (Nat.succ.inj hlength))

end Fill

/-! ### Units -/

theorem exists_of_mem_unitFamilies (h : (dimension, f) ∈ unitFamilies us) :
    ∃ u ∈ us, u.family = some f ∧ u.dimension.value = dimension := by
  obtain ⟨u, hu, hf⟩ := mem_filterMap.mp h
  split_ifs at hf
  obtain ⟨f', hf', heq⟩ := Option.map_eq_some_iff.mp hf
  cases heq
  exact ⟨u, hu, hf', rfl⟩

section Units

variable {us vs : List UnitEntry}

/-- **The units that wait get the numbers of their keys.** -/
theorem numberUnits_eq_fill (n : Numbering Dimension) (us : List UnitEntry) :
    numberUnits n us = (n.assign? ((us.filter (·.waits)).map (·.familyKey))).map fun r =>
      (fill (·.waits) (·.inFamily) us r.1, r.2.next) := by
  induction us generalizing n with
  | nil => rfl
  | cons u us ih =>
    have hcond : (!u.valid || u.family.isSome) = !u.waits := by
      rw [UnitEntry.waits, Bool.not_and, Option.not_isNone]
    rw [numberUnits, hcond]
    cases hwaits : u.waits with
    | false =>
      rw [filter_cons_of_neg (by simp [hwaits])]
      simp only [fill_cons_of_neg hwaits, Bool.not_false, if_true, ih]
      cases n.assign? ((us.filter (·.waits)).map (·.familyKey)) <;> rfl
    | true =>
      have htake : (if u.redeclared then n.fresh else n.number u.dimension.value) =
          n.take? u.familyKey := by
        unfold UnitEntry.familyKey
        split_ifs <;> rfl
      rw [filter_cons_of_pos (p := fun u : UnitEntry => u.waits) hwaits, if_neg (by simp), htake,
        map_cons, Numbering.assign?]
      rcases n.take? u.familyKey with _ | ⟨f, n'⟩
      · rfl
      · simp only [Option.bind_eq_bind, Option.bind_some, ih]
        generalize n'.assign? _ = given
        rcases given with _ | ⟨fs, n''⟩
        · rfl
        · show some (u.inFamily f :: fill _ _ us fs, _) = some (fill _ _ (u :: us) (f :: fs), _)
          rw [fill_cons_of_pos hwaits]

end Units

/-! ### Scales -/

section Scales

variable {units : List UnitEntry} {ss : List ScaleEntry}

theorem exists_of_mem_scaleFamilies (h : (key, f) ∈ scaleFamilies units ss) :
    ∃ s ∈ ss, s.family = some f ∧ s.familyKey units = some key := by
  obtain ⟨s, hs, hf⟩ := mem_filterMap.mp h
  split_ifs at hf
  obtain ⟨f', hf', hpoint⟩ := Option.bind_eq_some_iff.mp hf
  obtain ⟨point, hp, hunit⟩ := Option.bind_eq_some_iff.mp hpoint
  obtain ⟨g, hg, heq⟩ := Option.bind_eq_some_iff.mp hunit
  cases heq
  refine ⟨s, hs, hf', ?_⟩
  rw [ScaleEntry.familyKey, hp, Option.bind_some, hg, Option.map_some]

/-- **The scales that wait get the numbers of their keys.** -/
theorem numberScales_eq_fill (n : Numbering (String × FamilyId)) (ss : List ScaleEntry) :
    numberScales units n ss =
      (n.assign? ((ss.filter (·.waits units)).map (·.familyKey units))).map fun r =>
        fill (·.waits units) (·.inFamily) ss r.1 := by
  induction ss generalizing n with
  | nil => rfl
  | cons s ss ih =>
    cases hwaits : s.waits units with
    | false =>
      have hskip : numberScales units n (s :: ss) =
          (numberScales units n ss).bind fun ss => some (s :: ss) := by
        unfold ScaleEntry.waits at hwaits
        rw [numberScales]
        split
        · rename_i f hnew hf
          rw [hnew, hf] at hwaits
          cases hwaits
        · rfl
      rw [hskip, filter_cons_of_neg (by simp [hwaits])]
      simp only [fill_cons_of_neg hwaits, ih]
      cases n.assign? ((ss.filter (·.waits units)).map (·.familyKey units)) <;> rfl
    | true =>
      have hnew : (s.valid && s.family.isNone) = true := by
        simp only [ScaleEntry.waits, Bool.and_eq_true] at hwaits ⊢
        exact hwaits.1
      obtain ⟨f, hf⟩ : ∃ f, unitFamily? units s = some f := by
        simp only [ScaleEntry.waits, Bool.and_eq_true] at hwaits
        exact Option.isSome_iff_exists.mp hwaits.2
      have hstep : numberScales units n (s :: ss) = (n.take? (s.familyKey units)).bind fun r =>
          (numberScales units r.2 ss).bind fun ss => some (s.inFamily r.1 :: ss) := by
        rw [numberScales, hnew, hf, ScaleEntry.familyKey, hf]
        unfold ScaleEntry.inFamily
        cases s.refPoint <;> rfl
      rw [filter_cons_of_pos (p := fun s : ScaleEntry => s.waits units) hwaits, hstep, map_cons,
        Numbering.assign?]
      rcases n.take? (s.familyKey units) with _ | ⟨g, n'⟩
      · rfl
      · simp only [Option.bind_eq_bind, Option.bind_some, ih]
        generalize n'.assign? _ = given
        rcases given with _ | ⟨gs, n''⟩
        · rfl
        · show some (s.inFamily g :: fill _ _ ss gs) = some (fill _ _ (s :: ss) (g :: gs))
          rw [fill_cons_of_pos hwaits]

end Scales

/-! ### All entries -/

instance : Std.LawfulOrderMax FamilyId where
  max_eq_or a b := by
    show (if a ≤ b then b else a) = a ∨ (if a ≤ b then b else a) = b
    split_ifs
    · exact .inr rfl
    · exact .inl rfl
  max_le_iff a b c := by
    show (if a ≤ b then b else a) ≤ c ↔ a ≤ c ∧ b ≤ c
    simp only [UInt32.le_iff_toNat_le]
    split_ifs <;> omega

/-- The model once its entries are in families, and connected. -/
def connected (m : Model) (units : List UnitEntry) (scales : List ScaleEntry) : Model :=
  { m with
    units := units.mapIdx fun i u => linkUnit units u i
    scales := scales.mapIdx fun i s => linkScale scales s i }

section Numbers

variable (firstFamily : FamilyId) (e : Model)

/-- The first number for new families, zero if there is none. -/
def firstFree : FamilyId := (firstNumber? firstFamily e).getD 0

/-- The numbers that units have, and the next one. -/
def unitNumbering : Numbering Dimension := ⟨unitFamilies e.units, firstFree firstFamily e⟩

/-- What the units that wait share with their families. -/
def unitKeys : List (Option Dimension) := (e.units.filter (·.waits)).map (·.familyKey)

/-- All units, once those that wait are in their families. -/
def numberedUnits : List UnitEntry :=
  fill (·.waits) (·.inFamily) e.units ((e.unitNumbering firstFamily).assign e.unitKeys).1

/-- The numbers that scales have, and the next one. -/
def scaleNumbering : Numbering (String × FamilyId) :=
  ⟨scaleFamilies (e.numberedUnits firstFamily) e.scales,
    ((e.unitNumbering firstFamily).assign e.unitKeys).2.next⟩

/-- What the scales that wait share with their families. -/
def scaleKeys : List (Option (String × FamilyId)) :=
  (e.scales.filter (·.waits (e.numberedUnits firstFamily))).map
    (·.familyKey (e.numberedUnits firstFamily))

/-- All scales, once those that wait are in their families. -/
def numberedScales : List ScaleEntry :=
  fill (·.waits (e.numberedUnits firstFamily)) (·.inFamily) e.scales
    ((e.scaleNumbering firstFamily).assign (e.scaleKeys firstFamily)).1

/-- The number of families that are opened for the entries that wait. -/
def openedFamilies : Nat :=
  (e.unitNumbering firstFamily).opened e.unitKeys +
    (e.scaleNumbering firstFamily).opened (e.scaleKeys firstFamily)

/-- **There are numbers left behind those of all families that are opened.** -/
def HasRoom : Prop :=
  firstFamily.toNat + e.openedFamilies firstFamily < UInt32.size ∧
    ∀ f ∈ e.familyIds, f.toNat + 1 + e.openedFamilies firstFamily < UInt32.size

-- The instance is named, lest all numbers of families are gone through.
instance : Decidable (e.HasRoom firstFamily) :=
  @instDecidableAnd _ _ _ (List.decidableBAll _ _)

/-- The first number for new families is behind all that are in use, and not below the one that was
asked for. There is none if the last number is in use. -/
theorem firstNumber?_cases :
    (∃ f ∈ e.familyIds, UInt32.size ≤ f.toNat + 1) ∧ firstNumber? firstFamily e = none ∨
      firstNumber? firstFamily e = some (e.firstFree firstFamily) ∧
        firstFamily.toNat ≤ (e.firstFree firstFamily).toNat ∧
        (∀ f ∈ e.familyIds, f.toNat < (e.firstFree firstFamily).toNat) ∧
        (e.firstFree firstFamily = firstFamily ∨
          ∃ f ∈ e.familyIds, (e.firstFree firstFamily).toNat = f.toNat + 1) := by
  unfold firstFree firstNumber? maxFamily?
  cases hmax : e.familyIds.max? with
  | none =>
    rw [max?_eq_none_iff.mp hmax]
    exact .inr ⟨rfl, Nat.le_refl _, nofun, .inl rfl⟩
  | some largest =>
    dsimp only
    unfold FamilyId.next?
    split_ifs with hlt
    · have hone : (largest + 1).toNat = largest.toNat + 1 := by
        rw [UInt32.toNat_add, UInt32.toNat_one, Nat.mod_eq_of_lt hlt]
      have hright : (largest + 1).toNat ≤ (max firstFamily (largest + 1)).toNat :=
        UInt32.le_iff_toNat_le.mp Std.right_le_max
      refine .inr ⟨rfl, UInt32.le_iff_toNat_le.mp Std.left_le_max, fun f hf => ?_, ?_⟩
      · have hle : f ≤ largest := (max?_le_iff hmax).mp (Nat.le_refl _) f hf
        rw [hone] at hright
        exact Nat.lt_of_lt_of_le (Nat.lt_succ_of_le hle) hright
      · exact (Std.MaxEqOr.max_eq_or firstFamily (largest + 1)).imp_right fun heq =>
          ⟨largest, max?_mem hmax, (congrArg UInt32.toNat heq).trans hone⟩
    · exact .inl ⟨⟨largest, max?_mem hmax, Nat.le_of_not_lt hlt⟩, rfl⟩

theorem hasRoom_iff (h : firstNumber? firstFamily e = some (e.firstFree firstFamily)) :
    e.HasRoom firstFamily ↔
      (e.firstFree firstFamily).toNat + e.openedFamilies firstFamily < UInt32.size := by
  rcases e.firstNumber?_cases firstFamily with ⟨-, hnone⟩ | ⟨-, hfirst, hids, heq⟩
  · rw [hnone] at h
    cases h
  · constructor
    · rintro ⟨hroom, hrooms⟩
      rcases heq with heq | ⟨f, hf, heq⟩
      · rwa [heq]
      · rw [heq]
        exact hrooms f hf
    · intro hroom
      refine ⟨by omega, fun f hf => ?_⟩
      have hlt := hids f hf
      omega

/-- **Families get their numbers exactly if there is room for them.** -/
theorem resolveFamilies_numbered (ds : Diagnostics) :
    e.resolveFamilies firstFamily ds = if e.HasRoom firstFamily then
      some (e.connected (e.numberedUnits firstFamily) (e.numberedScales firstFamily),
        ds.pushAll (relationErrors (e.numberedUnits firstFamily))) else none := by
  unfold resolveFamilies
  rcases e.firstNumber?_cases firstFamily with ⟨⟨f, hf, hlast⟩, hnone⟩ | ⟨hsome, -⟩
  · rw [hnone, if_neg fun hroom => ?_]
    · rfl
    · have := hroom.2 f hf
      omega
  rw [hsome, Option.bind_eq_bind, Option.bind_some, numberUnits_eq_fill, Numbering.assign?_eq]
  have hroom := e.hasRoom_iff firstFamily hsome
  unfold openedFamilies at hroom
  show (Option.bind (Option.map _ (if (e.firstFree firstFamily).toNat +
    (e.unitNumbering firstFamily).opened e.unitKeys < UInt32.size then _ else none)) _) = _
  by_cases hunits : (e.firstFree firstFamily).toNat +
      (e.unitNumbering firstFamily).opened e.unitKeys < UInt32.size
  · have hnext : (e.scaleNumbering firstFamily).next.toNat = _ :=
      Numbering.toNat_next_assign (n := e.unitNumbering firstFamily) hunits
    rw [if_pos hunits, Option.map_some, Option.bind_some]
    show (numberScales (e.numberedUnits firstFamily) (e.scaleNumbering firstFamily) e.scales).bind
      _ = _
    rw [numberScales_eq_fill, Numbering.assign?_eq, hnext]
    rw [← Nat.add_assoc] at hroom
    by_cases hall : e.HasRoom firstFamily
    · rw [if_pos hall]
      exact congrArg (fun r => Option.bind (Option.map _ r) _) (if_pos (hroom.mp hall))
    · rw [if_neg hall]
      exact congrArg (fun r => Option.bind (Option.map _ r) _) (if_neg (hall ∘ hroom.mpr))
  · rw [if_neg hunits, if_neg fun h => hunits (Nat.lt_of_le_of_lt (by omega) (hroom.mp h))]
    rfl

end Numbers

/-- The first new number is behind all numbers in use, and not below the one asked for. -/
theorem HasRoom.firstFree {e : Model} (h : e.HasRoom firstFamily) :
    (e.firstFree firstFamily).toNat + e.openedFamilies firstFamily < UInt32.size ∧
      firstFamily.toNat ≤ (e.firstFree firstFamily).toNat ∧
      ∀ f ∈ e.familyIds, f.toNat < (e.firstFree firstFamily).toNat := by
  rcases e.firstNumber?_cases firstFamily with ⟨⟨f, hf, hlast⟩, -⟩ | ⟨hsome, hfirst, hids, -⟩
  · have := h.2 f hf
    omega
  · exact ⟨(e.hasRoom_iff firstFamily hsome).mp h, hfirst, hids⟩

/-- New entries get into families. -/
theorem numbered_new {m : Model} (hunits : ∀ u ∈ m.units, u.valid = true ∧ u.family = none)
    (hscales : ∀ s ∈ m.scales, (s.valid = true ∧ s.family = none) ∧
      ∃ i, s.unit = some i ∧ i < m.units.length) (firstFamily : FamilyId) :
    ∃ fs gs, fs.length = m.units.length ∧
      m.numberedUnits firstFamily = ((m.units.zip fs).map fun p => p.1.inFamily p.2) ∧
      m.numberedScales firstFamily = ((m.scales.zip gs).map fun p => p.1.inFamily p.2) := by
  have hwaits : ∀ u ∈ m.units, u.waits = true := by
    intro u hu
    rw [UnitEntry.waits, (hunits u hu).1, (hunits u hu).2]
    rfl
  have hlength : ((m.unitNumbering firstFamily).assign m.unitKeys).1.length = m.units.length := by
    rw [Numbering.length_assign, unitKeys, length_map, filter_eq_self.mpr hwaits]
  have hnumbered := @fill_eq_zip _ _ UnitEntry.inFamily _ _ hwaits hlength
  have hwaits' : ∀ s ∈ m.scales, s.waits (m.numberedUnits firstFamily) = true := by
    intro s hs
    obtain ⟨⟨hvalid, hfamily⟩, i, hi, hlt⟩ := hscales s hs
    have hunit : (unitFamily? (m.numberedUnits firstFamily) s).isSome = true := by
      unfold unitFamily? numberedUnits
      rw [hnumbered, hi, Option.bind_eq_bind, Option.bind_some, getElem?_map, getElem?_eq_getElem]
      · rfl
      · rw [length_zip, hlength, Nat.min_self]
        exact hlt
    rw [ScaleEntry.waits, hvalid, hfamily, hunit]
    rfl
  refine ⟨_, _, hlength, hnumbered, fill_eq_zip hwaits' ?_⟩
  rw [Numbering.length_assign, scaleKeys, length_map, filter_eq_self.mpr hwaits']

/-- Entries that are in families stay there. -/
theorem numbered_known {m : Model} (hunits : ∀ u ∈ m.units, u.family.isSome = true)
    (hscales : ∀ s ∈ m.scales, s.family.isSome = true) (firstFamily : FamilyId) :
    m.numberedUnits firstFamily = m.units ∧ m.numberedScales firstFamily = m.scales ∧
      m.openedFamilies firstFamily = 0 := by
  have hkept : ∀ u ∈ m.units, u.waits = false := fun u hu => UnitEntry.waits_of_isSome (hunits u hu)
  have hkept' (units : List UnitEntry) : ∀ s ∈ m.scales, s.waits units = false :=
    fun s hs => ScaleEntry.waits_of_isSome (hscales s hs) units
  have hkeys : m.unitKeys = [] := by
    rw [unitKeys, filter_eq_nil_iff.mpr (by simpa using hkept), map_nil]
  have hkeys' : m.scaleKeys firstFamily = [] := by
    rw [scaleKeys, filter_eq_nil_iff.mpr (by simpa using hkept' _), map_nil]
  refine ⟨?_, ?_, ?_⟩
  · simpa [numberedUnits, fill] using fill_append hkept [] _
  · simpa [numberedScales, fill] using fill_append (hkept' _) [] _
  · rw [openedFamilies, hkeys, hkeys']
    rfl

end Model

end Quantity
