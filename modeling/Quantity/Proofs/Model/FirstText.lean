import Quantity.Proofs.Model.SoundFamilies

/-!
# The families of a first text

When a text is compiled on its own, no name is reused, no family has a number yet, and the numbers
are given out in order. `compile_numberedFrom` says what they are: the families of units, by dimension,
are numbered from the first number on in the order in which they are declared, and the families of
scales, by point of reference and family of units, are numbered behind them.
-/

namespace Quantity

open List

/-! ### No name is reused -/

namespace Elaborate

variable {options : Options} {m : Model} {us : List UnitDecl} {p r : Progress} {todo : Todo}
  {deferred : List Deferred}

/-- A unit that no early one comes before reuses no name. -/
theorem Declares.of_zero (h : Declares options 0 p todo d q todo') :
    q.units = p.units ++ [fresh options d false] ∧ todo'.aliases = todo.aliases := by
  have hnone (hname : GetsName options 0 p d) : p.names.get? d.name = none :=
    Option.eq_none_iff_forall_ne_some.mpr fun i hi => Nat.not_lt_zero _ (hname i hi).1
  cases h with
  | refused => exact ⟨rfl, rfl⟩
  | clashes _ hname | accepted hname =>
    simp [Progress.enter, hnone hname, marked, pairOf]

theorem declareUnits_zero (us : List UnitDecl) (hd : Declared options m done p todo)
    (hp : ∀ u ∈ p.units, u.redeclared = false) :
    (∀ u ∈ (declareUnits options 0 p todo us).1.units, u.redeclared = false) ∧
      (declareUnits options 0 p todo us).2.aliases = todo.aliases := by
  induction us generalizing done p todo with
  | nil => exact ⟨hp, rfl⟩
  | cons d us ih =>
    have hdeclares := declares_declareUnit options 0 todo d hd.length_states
    obtain ⟨hunits, haliases⟩ := hdeclares.of_zero
    have hp' : ∀ u ∈ (declareUnit options 0 p todo d).1.units, u.redeclared = false := by
      rw [hunits]
      exact forall_mem_append.mpr ⟨hp, by simp [fresh]⟩
    rw [← haliases]
    exact ih (hd.concat hdeclares) hp'

theorem Stuck.redeclared_eq (h : Stuck options todo.pending p r deferred)
    (hd : Declared options m us p todo) (hu : u ∈ (giveUp deferred r).units) :
    ∃ v ∈ p.units, v.redeclared = u.redeclared := by
  obtain ⟨i, hu⟩ := mem_iff_getElem?.mp hu
  by_cases hs : p.states[i]? = some .pending
  · obtain ⟨d, hmem⟩ := hd.ready.listed i hs
    obtain ⟨v, hv, ⟨e, -, -, hu'⟩ | ⟨-, -, hu'⟩⟩ := h.final hd.ready hmem
    · cases hu.symm.trans hu'
      exact ⟨v, mem_of_getElem? hv, rfl⟩
    · cases hu.symm.trans hu'
      exact ⟨u, mem_of_getElem? hv, rfl⟩
  · have hadv := h.advances
    rw [(hadv.settled i hs).2] at hu
    exact ⟨u, mem_of_getElem? hu, rfl⟩

/-- **No unit of a first text reuses a name.** -/
theorem not_redeclared_of_elaborate (hunits : m.units = []) (hlate : m.lateUnits = 0)
    (h : elaborate options m ds decls = .ok (e, ds')) : ∀ u ∈ e.units, u.redeclared = false := by
  obtain ⟨q, hq, -⟩ := bind_eq_ok_iff.mp h
  rw [elaborate_eq hq, Except.ok.injEq, Prod.mk.injEq] at h
  rw [← h.1]
  have hd := declared_declareUnits m.lateUnits decls.units (declared_start options m ds)
  obtain ⟨hredeclared, haliases⟩ := declareUnits_zero decls.units (declared_start options m ds)
    (by simp [start, hunits])
  rw [← hlate] at hredeclared haliases
  rw [elaborateUnits_eq _ _ _ haliases] at hq
  obtain ⟨e, he, -⟩ | ⟨r, deferred, hr, hstuck⟩ := encodeUnits_cases hd
  · rw [hq] at he
    cases he
  · rw [hq, Except.ok.injEq] at hr
    subst hr
    intro u hu
    obtain ⟨v, hv, heq⟩ := hstuck.redeclared_eq hd hu
    rw [← heq]
    exact hredeclared v hv

end Elaborate

theorem ScaleEntry.familyKey_eq_some_iff : s.familyKey units = some (point, f) ↔
      s.refPoint = some point ∧ Model.unitFamily? units s = some f := by
  simp [familyKey, Option.bind_eq_some_iff]

namespace Model

open Elaborate

/-! ### Numbers in order -/

/-- **The families are numbered in the order of their first members**, from `low` on and without
gaps. -/
def Consecutive {α : Type} (family : α → Option FamilyId) (xs : List α) (low count : Nat) : Prop :=
  (xs.filterMap family).eraseDups.map UInt32.toNat = List.range' low count

section MapEq

variable {α : Type} {g : α → α} {xs ys : List α} (hmap : xs.map g = ys.map g)
include hmap

theorem Consecutive.of_map_eq {low count : Nat} (h : Consecutive family ys low count)
    (hg : ∀ x, family (g x) = family x) : Consecutive family xs low count := by
  have hfamilies := congrArg (List.filterMap family) hmap
  have hcomp : family ∘ g = family := funext hg
  rw [filterMap_map, filterMap_map, hcomp] at hfamilies
  rw [Consecutive, hfamilies]
  exact h

theorem pairwise_of_map_eq (h : ys.Pairwise R) (hg : ∀ x y, R (g x) (g y) ↔ R x y) :
    xs.Pairwise R := by
  have hys : (ys.map g).Pairwise R := pairwise_map.mpr (h.imp fun hxy => (hg _ _).mpr hxy)
  rw [← hmap] at hys
  exact (pairwise_map.mp hys).imp fun hxy => (hg _ _).mp hxy

end MapEq

namespace Numbering

variable {κ : Type} [DecidableEq κ]

theorem eraseDups_assign {n : Numbering κ} {keys : List (Option κ)}
    (hget : ∀ k f, n.get? k = some f → f.toNat < n.next.toNat)
    (hroom : n.next.toNat + n.opened keys < UInt32.size) :
    ((n.assign keys).1.filter (n.next.toNat ≤ ·.toNat)).eraseDups.map UInt32.toNat =
      List.range' n.next.toNat (n.opened keys) := by
  induction keys generalizing n with
  | nil => rfl
  | cons key keys ih =>
    rw [opened_cons] at hroom ⊢
    have hnext := toNat_next_take n key (by omega)
    simp only [assign]
    rcases n.take_cases key with ⟨f, hf, htake⟩ | ⟨hnone, hfst, -, hget'⟩
    · have hopened : n.opened [key] = 0 := by simp [opened, hf]
      obtain ⟨k, -, hk⟩ := Option.bind_eq_some_iff.mp hf
      have hlt : ¬ n.next.toNat ≤ f.toNat := Nat.not_le.mpr (hget k f hk)
      rw [hopened, htake, Nat.zero_add] at hroom ⊢
      rw [filter_cons_of_neg (by simpa using hlt)]
      exact ih hget hroom
    · have hopened : n.opened [key] = 1 := by simp [opened, hnone]
      rw [hopened] at hnext hroom ⊢
      rw [hfst, filter_cons_of_pos (by simp), eraseDups_cons, map_cons, Nat.add_comm 1,
        filter_filter]
      -- without the number that was given, those from it on are those behind it
      have hlater : (fun f : FamilyId => (!f == n.next) && decide (n.next.toNat ≤ f.toNat)) =
          fun f => decide ((n.take key).2.next.toNat ≤ f.toNat) := by
        funext f
        rw [Bool.eq_iff_iff]
        simp only [Bool.and_eq_true, Bool.not_eq_true', beq_eq_false_iff_ne, decide_eq_true_eq,
          ne_eq, ← UInt32.toNat_inj]
        omega
      rw [hlater, List.range'_succ, ← hnext]
      refine congrArg (n.next.toNat :: ·) (ih (fun k f hk => ?_) (by omega))
      rw [hget'] at hk
      split_ifs at hk
      · cases hk
        omega
      · have := hget k f hk
        omega

end Numbering

/-- Numbers that are given out in order, where none was given before. -/
theorem consecutive_of_assign [DecidableEq κ] {key : α → Option κ} {n : Numbering κ}
    {keys : List (Option κ)} (hknown : n.known = [])
    (hroom : n.next.toNat + n.opened keys < UInt32.size)
    (hpairs : xs.filterMap (fun x => (family x).map (key x, ·)) = keys.zip (n.assign keys).1) :
    Consecutive family xs n.next.toNat (n.opened keys) ∧
      xs.Pairwise fun x y => ∀ f g, family x = some f → family y = some g →
        (f = g ↔ (key x).isSome = true ∧ key x = key y) := by
  have hnone (k : Option κ) : k.bind n.get? = none := by
    cases k with
    | none => rfl
    | some k =>
      rw [Option.bind_some, Numbering.get?, hknown]
      rfl
  have hassigned := Numbering.assigned_assign hroom
  rw [← hpairs] at hassigned
  constructor
  · have hnumbers : xs.filterMap family = (n.assign keys).1 := by
      have hmap := congrArg (List.map Prod.snd) hpairs
      rw [map_filterMap, map_snd_zip (n.length_assign keys).le] at hmap
      simpa [Option.map_map] using hmap
    have hall : (n.assign keys).1.filter (n.next.toNat ≤ ·.toNat) = (n.assign keys).1 := by
      refine filter_eq_self.mpr fun f hf => decide_eq_true ?_
      rw [← hnumbers] at hf
      obtain ⟨x, hx, hf⟩ := mem_filterMap.mp hf
      exact (hassigned.new (key x, f) (mem_filterMap.mpr ⟨x, hx, by simp [hf]⟩) (hnone _)).1
    rw [Consecutive, hnumbers, ← hall]
    refine Numbering.eraseDups_assign (fun k f hk => ?_) hroom
    rw [Numbering.get?, hknown] at hk
    cases hk
  · refine (pairwise_filterMap.mp hassigned.same).imp fun {x y} hsame f g hf hg => ?_
    exact hsame (key x, f) (by simp [hf]) (key y, g) (by simp [hg]) (hnone _) (hnone _)

/-! ### A first text -/

/-- **Two scales are of one group**: they have the same point of reference, and their units are in
the same family. -/
def SameGroup (units : List UnitEntry) (s t : ScaleEntry) : Prop :=
  ∃ point f, (s.refPoint = some point ∧ unitFamily? units s = some f) ∧
    t.refPoint = some point ∧ unitFamily? units t = some f

theorem sameGroup_iff {units : List UnitEntry} :
    SameGroup units s t ↔
      (s.familyKey units).isSome = true ∧ s.familyKey units = t.familyKey units := by
  constructor
  · rintro ⟨point, f, hs, ht⟩
    rw [ScaleEntry.familyKey_eq_some_iff.mpr hs, ScaleEntry.familyKey_eq_some_iff.mpr ht]
    exact ⟨rfl, rfl⟩
  · rintro ⟨hsome, heq⟩
    obtain ⟨⟨point, f⟩, hs⟩ := Option.isSome_iff_exists.mp hsome
    have ht := heq.symm.trans hs
    exact ⟨point, f, ScaleEntry.familyKey_eq_some_iff.mp hs, ScaleEntry.familyKey_eq_some_iff.mp ht⟩

/-- The families of units are all that counts for scales over them. -/
theorem unitFamily?_congr (h : us.map (·.family) = vs.map (·.family)) :
    unitFamily? us = unitFamily? vs := by
  have hplace (i : Nat) : (us[i]?).bind (·.family) = (vs[i]?).bind (·.family) := by
    have hi := congrArg (fun families => (families[i]?).bind id) h
    simpa [Option.bind_map] using hi
  funext s
  exact congrArg s.unit.bind (funext hplace)

/-- **What the families of a first text are**: entries are in families if they have a meaning, units by
dimension and scales by groups, and the families are numbered in the order of their first members,
those of units first. -/
structure NumberedFrom (firstFamily : FamilyId) (m : Model) (count more : Nat) : Prop where
  units : ∀ u ∈ m.units, u.family.isSome = u.valid
  scales : ∀ s ∈ m.scales, s.family.isSome = s.valid
  dimensions : ∀ u ∈ m.units, ∀ v ∈ m.units, u.valid = true → v.valid = true →
    (u.family = v.family ↔ u.dimension.value = v.dimension.value)
  consecutiveUnits : Consecutive (·.family) m.units firstFamily.toNat count
  groups : m.scales.Pairwise fun s t => s.valid = true → t.valid = true →
    (s.family = t.family ↔ SameGroup m.units s t)
  consecutiveScales : Consecutive (·.family) m.scales (firstFamily.toNat + count) more

section First

variable {e : Model} {us : List UnitEntry} {ss : List ScaleEntry}
  (h : Adds (beginLate {}) e us ss) (firstFamily : FamilyId)
include h

theorem unitNumbering_first : e.unitNumbering firstFamily = ⟨[], firstFamily⟩ := by
  have hids : e.familyIds = [] := familyIds_adds (m := {}) h
  have hunits : unitFamilies e.units = [] := by
    rw [h.eq]
    exact filterMap_eq_nil_iff.mpr fun u hu => by simp [h.units u hu]
  rw [unitNumbering, hunits, firstFree, firstNumber?, maxFamily?, hids]
  rfl

theorem known_scaleNumbering_first : (e.scaleNumbering firstFamily).known = [] := by
  refine filterMap_eq_nil_iff.mpr fun s hs => ?_
  rw [h.eq] at hs
  simp [(h.scales s hs).1]

/-- The units of a first text are in families by their dimensions. -/
theorem consecutive_units_first (hroom : e.HasRoom firstFamily)
    (hredeclared : ∀ u ∈ e.units, u.redeclared = false) :
    Consecutive (·.family) (e.numberedUnits firstFamily) firstFamily.toNat
        ((e.unitNumbering firstFamily).opened e.unitKeys) ∧
      ∀ u ∈ e.numberedUnits firstFamily, ∀ v ∈ e.numberedUnits firstFamily, ∀ f g,
        u.family = some f → v.family = some g →
          (f = g ↔ u.dimension.value = v.dimension.value) := by
  obtain ⟨late, hunits, -, hpairs⟩ := exists_late_units settled_empty h firstFamily
  have hnumbering := unitNumbering_first h firstFamily
  have hsize := hroom.1
  rw [openedFamilies, hnumbering] at hsize
  rw [hnumbering] at hpairs ⊢
  obtain ⟨hconsecutive, hpairwise⟩ := consecutive_of_assign rfl
    (show firstFamily.toNat + _ < UInt32.size by omega) hpairs
  have hlate : late = e.numberedUnits firstFamily := hunits.symm
  rw [hlate] at hconsecutive hpairwise
  have hkey : ∀ u ∈ e.numberedUnits firstFamily, u.familyKey = some u.dimension.value := by
    have hmap : (e.numberedUnits firstFamily).map (·.redeclared) = e.units.map (·.redeclared) := by
      refine map_fill ?_ _ _
      exact fun _ _ => rfl
    intro u hu
    obtain ⟨v, hv, heq⟩ := exists_mem_of_map_eq hmap hu
    rw [UnitEntry.familyKey, ← heq, hredeclared v hv]
    rfl
  have hdimensions : (e.numberedUnits firstFamily).Pairwise fun u v => ∀ f g,
      u.family = some f → v.family = some g →
        (f = g ↔ u.dimension.value = v.dimension.value) := by
    refine hpairwise.imp_of_mem fun {u v} hu hv hsame f g hf hg => ?_
    rw [hsame f g hf hg, hkey u hu, hkey v hv, Option.some.injEq]
    exact and_iff_right rfl
  have hall := hdimensions.forall_of_forall_of_flip
    (fun u _ f g hf hg => iff_of_true (Option.some.inj (hf.symm.trans hg)) rfl)
    (hdimensions.imp fun huv f g hf hg => by rw [eq_comm, huv g f hg hf, eq_comm])
  exact ⟨hconsecutive, fun u hu v hv => hall hu hv⟩

theorem consecutive_scales_first (hroom : e.HasRoom firstFamily) :
    Consecutive (·.family) (e.numberedScales firstFamily)
        (firstFamily.toNat + (e.unitNumbering firstFamily).opened e.unitKeys)
        ((e.scaleNumbering firstFamily).opened (e.scaleKeys firstFamily)) ∧
      (e.numberedScales firstFamily).Pairwise fun s t => ∀ f g,
        s.family = some f → t.family = some g →
          (f = g ↔ SameGroup (e.numberedUnits firstFamily) s t) := by
  obtain ⟨late, hscales, -, hpairs⟩ := exists_late_scales settled_empty h firstFamily
  have hfree : e.firstFree firstFamily = firstFamily :=
    congrArg Numbering.next (unitNumbering_first h firstFamily)
  have hnext := hroom.next_scaleNumbering
  have hsize := hroom.1
  unfold openedFamilies at hsize
  rw [hfree] at hnext
  obtain ⟨hconsecutive, hpairwise⟩ := consecutive_of_assign
    (known_scaleNumbering_first h firstFamily) (by omega) hpairs
  have hlate : late = e.numberedScales firstFamily := hscales.symm
  rw [hlate] at hconsecutive hpairwise
  refine ⟨?_, hpairwise.imp fun hsame f g hf hg => ?_⟩
  · rwa [hnext] at hconsecutive
  · rw [hsame f g hf hg, sameGroup_iff]

end First

/-- **How the families of a first text are numbered.** -/
theorem compile_numberedFrom (text : String) (options : Options) :
    ((∃ c, compile text options = .ok c) ↔ HasRoomFor {} text options) ∧
      ∀ c, compile text options = .ok c →
        ∃ count more, c.model.NumberedFrom options.firstFamily count more := by
  refine ⟨exists_extend_iff {} text options, fun c hc => ?_⟩
  obtain ⟨e, ds, us, ss, he, hadds, hroom, hmodel⟩ := exists_extended hc
  have hsettled := settled_empty.extend hc
  have hredeclared := not_redeclared_of_elaborate rfl rfl he
  obtain ⟨hunits, hdimensions⟩ := consecutive_units_first hadds options.firstFamily hroom hredeclared
  obtain ⟨hscales, hgroups⟩ := consecutive_scales_first hadds options.firstFamily hroom
  have hmapUnits : c.model.units.map (·.unlinked) =
      (e.numberedUnits options.firstFamily).map (·.unlinked) := by
    rw [hmodel]
    exact map_unlinked_units e _ _
  have hmapScales : c.model.scales.map (·.unlinked) =
      (e.numberedScales options.firstFamily).map (·.unlinked) := by
    rw [hmodel]
    exact map_unlinked_scales e _ _
  refine ⟨(e.unitNumbering options.firstFamily).opened e.unitKeys,
    (e.scaleNumbering options.firstFamily).opened (e.scaleKeys options.firstFamily), ?_⟩
  constructor
  case units => exact hsettled.units
  case scales => exact hsettled.scales
  case consecutiveUnits => exact hunits.of_map_eq hmapUnits fun _ => rfl
  case consecutiveScales => exact hscales.of_map_eq hmapScales fun _ => rfl
  case dimensions =>
    intro u hu v hv huvalid hvvalid
    obtain ⟨f, hf⟩ := Option.isSome_iff_exists.mp ((hsettled.units u hu).trans huvalid)
    obtain ⟨g, hg⟩ := Option.isSome_iff_exists.mp ((hsettled.units v hv).trans hvvalid)
    obtain ⟨u', hu', huu'⟩ := exists_mem_of_map_eq hmapUnits hu
    obtain ⟨v', hv', hvv'⟩ := exists_mem_of_map_eq hmapUnits hv
    obtain ⟨hufamily, -, hudimension, -⟩ := UnitEntry.eq_of_unlinked_eq huu'
    obtain ⟨hvfamily, -, hvdimension, -⟩ := UnitEntry.eq_of_unlinked_eq hvv'
    rw [hf, hg, Option.some.injEq, ← hudimension, ← hvdimension]
    exact hdimensions u' hu' v' hv' f g (hufamily.trans hf) (hvfamily.trans hg)
  case groups =>
    have hfamilies : c.model.units.map (·.family) =
        (e.numberedUnits options.firstFamily).map (·.family) := by
      have hmap := congrArg (List.map (·.family)) hmapUnits
      rw [map_map, map_map] at hmap
      exact hmap
    -- connections play no part in what scales share
    have hgroups := pairwise_of_map_eq hmapScales hgroups fun _ _ => Iff.rfl
    refine hgroups.imp_of_mem fun {s t} hs ht hsame hsvalid htvalid => ?_
    obtain ⟨f, hf⟩ := Option.isSome_iff_exists.mp ((hsettled.scales s hs).trans hsvalid)
    obtain ⟨g, hg⟩ := Option.isSome_iff_exists.mp ((hsettled.scales t ht).trans htvalid)
    rw [hf, hg, Option.some.injEq, hsame f g hf hg, SameGroup, SameGroup,
      unitFamily?_congr hfamilies]

/-- Lengths and masses, a unit that has no meaning, and scales above the level of the sea. -/
def heightsAndWeights : String :=
  "unit Meter \"m\" = <Length>; unit Ell \"l\" = 3 * Span; unit Gram \"g\" = <Mass>;
   unit Foot \"ft\" = 0.3 * Meter; scale Height Sea = 0 from Meter; scale Weight Sea = 0 from Gram;
   scale Depth Sea = 1 from Foot;"

/-- Depths join heights, which are lengths as well, but not weights. -/
theorem compile_numberedFrom_heightsAndWeights :
    HasRoomFor {} heightsAndWeights { kind := .decimal, firstFamily := 5 } ∧
      ∃ c count more,
        compile heightsAndWeights { kind := .decimal, firstFamily := 5 } = .ok c ∧
        c.model.units.map (·.family) = [some 5, none, some 6, some 5] ∧
        c.model.scales.map (·.family) = [some 7, some 8, some 7] ∧
        c.model.NumberedFrom 5 count more := by
  obtain ⟨c, hc, hunits, hscales⟩ :
      ∃ c, compile heightsAndWeights { kind := .decimal, firstFamily := 5 } = .ok c ∧
        c.model.units.map (·.family) = [some 5, none, some 6, some 5] ∧
        c.model.scales.map (·.family) = [some 7, some 8, some 7] := by
    decide +kernel
  obtain ⟨hroom, hnumbered⟩ :=
    compile_numberedFrom heightsAndWeights { kind := .decimal, firstFamily := 5 }
  obtain ⟨count, more, hnumbered⟩ := hnumbered c hc
  exact ⟨hroom.mp ⟨c, hc⟩, c, count, more, hc, hunits, hscales, hnumbered⟩

end Model

end Quantity
