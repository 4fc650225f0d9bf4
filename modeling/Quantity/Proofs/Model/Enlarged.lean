import Quantity.Proofs.Model.InRange
import Quantity.Proofs.Model.Unplaced

/-!
# Late entries of a text without errors

A text without errors adds entries that all have a meaning. `enlarged_of_extend` says what can be
relied on after that: late units have names of their own and are in families, the units that were
there before have kept their names and origins, and whatever a late entry refers to is there.
-/

namespace Quantity.Model

open Elaborate List

/-- **What a text without errors leaves**, behind the entries of the model that it extends. -/
structure Enlarged (m c : Model) : Prop where
  lateUnits : c.lateUnits = m.units.length
  lateScales : c.lateScales = m.scales.length
  early : ∀ i u, i < m.units.length → c.units[i]? = some u →
    ∃ w, m.units[i]? = some w ∧ w.name = u.name ∧ w.origin = u.origin
  late : ∀ i u, m.units.length ≤ i → c.units[i]? = some u →
    u.valid = true ∧ u.family.isSome = true ∧ u.origin.module? = none
  names : ∀ i j u w, m.units.length ≤ i → m.units.length ≤ j → c.units[i]? = some u →
    c.units[j]? = some w → u.name = w.name → i = j
  scales : ∀ i e, m.scales.length ≤ i → c.scales[i]? = some e →
    ∃ j, e.unit = some j ∧ j < c.units.length
  linked : c.Linked

/-! ### Families -/

theorem isSome_family_of_mem_numberedUnits {e : Model} (hu : u ∈ e.numberedUnits firstFamily)
    (hvalid : u.valid = true) : u.family.isSome = true := by
  have hlength : ((e.unitNumbering firstFamily).assign e.unitKeys).1.length =
      (e.units.filter (·.waits)).length := by
    rw [Numbering.length_assign, unitKeys, length_map]
  rcases mem_fill hlength hu with ⟨-, hwaits⟩ | ⟨v, -, -, f, rfl⟩
  · rw [UnitEntry.waits, hvalid, Bool.true_and] at hwaits
    rw [← Option.not_isNone, hwaits]
    rfl
  · rfl

/-! ### Extensions without errors -/

section Extend

variable {options : Options} {m : Model} {decls : Declarations} {late : List UnitEntry}
  {scales : List ScaleEntry}

/-- What neither families nor connections change of a unit. -/
def declaredPart (u : UnitEntry) : String × Origin × Bool := (u.name, u.origin, u.valid)

theorem map_declaredPart_extended :
    ((extended options m late scales).resolved options.firstFamily).units.map declaredPart =
      (m.units ++ kept options m late).map declaredPart := by
  have hnumbered : ((extended options m late scales).numberedUnits options.firstFamily).map
      declaredPart = (m.units ++ kept options m late).map declaredPart := by
    refine map_fill ?_ _ _
    exact fun _ _ => rfl
  rw [← hnumbered]
  have hmap := congrArg (List.map declaredPart) (map_unlinked_units (extended options m late scales)
    ((extended options m late scales).numberedUnits options.firstFamily)
    ((extended options m late scales).numberedScales options.firstFamily))
  rw [map_map, map_map] at hmap
  exact hmap

theorem nodup_names_kept (h : Fitting options m decls.units late) :
    ((kept options m late).map (·.name)).Nodup := by
  refine List.Nodup.sublist ((filter_sublist).map _) ?_
  rw [h.solution.names]
  exact nodup_names h.admitted.differ

theorem declared_of_mem_kept (h : Fitting options m decls.units late)
    (hu : u ∈ kept options m late) : u.valid = true ∧ u.origin.module? = none := by
  obtain ⟨d, -, e, rfl⟩ := h.solution.eq_complete (mem_of_mem_filter hu)
  exact ⟨rfl, rfl⟩

theorem unit_lt_of_mem_scales (h : Sound options m decls late scales) (he : e ∈ scales) :
    ∃ j, e.unit = some j ∧ j < (m.units ++ kept options m late).length := by
  obtain ⟨d, -, hd⟩ := h.scalesFit.exists_mem he
  obtain ⟨i, u, offset, hi, -, hu, -, rfl⟩ := encodeScale_eq_ok_iff.mp hd.meaning
  exact ⟨i, hi, lt_of_getElem? hu⟩

/-- **A text without errors enlarges the model.** -/
theorem enlarged_of_extend (hc : m.extend text options = .ok c) (hok : c.isSuccess = true) :
    Enlarged m c.model := by
  obtain ⟨hlateUnits, hlateScales⟩ := late_extend hc
  obtain ⟨late, scales, hsound, -, -, hmodel⟩ := exists_sound_of_extend hc hok
  have hunits : c.model.units.map declaredPart =
      (m.units ++ kept options m late).map declaredPart := by
    rw [hmodel]
    exact map_declaredPart_extended
  have hlength : c.model.units.length = (m.units ++ kept options m late).length := by
    have := congrArg List.length hunits
    rwa [length_map, length_map] at this
  -- a late unit, and what it was before it got into its family
  have hlate (i : Nat) (u : UnitEntry) (hi : m.units.length ≤ i) (hu : c.model.units[i]? = some u) :
      ∃ w, (kept options m late)[i - m.units.length]? = some w ∧
        declaredPart w = declaredPart u := by
    obtain ⟨w, hw, heq⟩ := exists_getElem?_of_map_eq hunits hu
    rw [getElem?_append_right hi] at hw
    exact ⟨w, hw, heq⟩
  constructor
  case lateUnits => exact hlateUnits
  case lateScales => exact hlateScales
  case early =>
    intro i u hi hu
    obtain ⟨w, hw, heq⟩ := exists_getElem?_of_map_eq hunits hu
    rw [getElem?_append_left hi] at hw
    exact ⟨w, hw, congrArg Prod.fst heq, congrArg (·.2.1) heq⟩
  case late =>
    intro i u hi hu
    obtain ⟨w, hw, heq⟩ := hlate i u hi hu
    obtain ⟨hvalid, horigin⟩ := declared_of_mem_kept hsound.toFitting (mem_of_getElem? hw)
    have hvalid : u.valid = true := (congrArg (·.2.2) heq).symm.trans hvalid
    refine ⟨hvalid, ?_, ?_⟩
    · rw [hmodel] at hu
      obtain ⟨v, hv, hvu⟩ := exists_getElem?_of_map_eq (map_unlinked_units _ _ _) hu
      obtain ⟨hfamily, hvalid', -⟩ := UnitEntry.eq_of_unlinked_eq hvu
      rw [← hfamily]
      exact isSome_family_of_mem_numberedUnits (mem_of_getElem? hv) (hvalid'.trans hvalid)
    · exact (congrArg (fun x => x.2.1.module?) heq).symm.trans horigin
  case names =>
    intro i j u w hi hj hu hw hname
    obtain ⟨u', hu', hequ⟩ := hlate i u hi hu
    obtain ⟨w', hw', heqw⟩ := hlate j w hj hw
    have hname' : u'.name = w'.name :=
      (congrArg Prod.fst hequ).trans (hname.trans (congrArg Prod.fst heqw).symm)
    have hplace : i - m.units.length = j - m.units.length := by
      refine (getElem?_inj ?_ (nodup_names_kept hsound.toFitting)).mp ?_
      · rw [length_map]
        exact lt_of_getElem? hu'
      · rw [getElem?_map, getElem?_map, hu', hw']
        exact congrArg some hname'
    omega
  case scales =>
    intro i e hi he
    rw [hmodel] at he
    obtain ⟨v, hv, hve⟩ := exists_getElem?_of_map_eq (map_unlinked_scales _ _ _) he
    have hnumbered : ((extended options m late scales).numberedScales options.firstFamily).map
        (·.unit) = (m.scales ++ scales).map (·.unit) := by
      refine map_fill ?_ _ _
      exact fun _ _ => rfl
    obtain ⟨t, ht, htv⟩ := exists_getElem?_of_map_eq hnumbered hv
    rw [getElem?_append_right hi] at ht
    obtain ⟨j, hj, hlt⟩ := unit_lt_of_mem_scales hsound (mem_of_getElem? ht)
    have hunit : v.unlinked.unit = e.unlinked.unit := congrArg ScaleEntry.unit hve
    exact ⟨j, hunit.symm.trans (htv.symm.trans hj), hlength ▸ hlt⟩
  case linked =>
    rw [hmodel]
    exact linked_resolved _ _ _

end Extend

/-! ### Links -/

section Links

variable {m c : Model} (h : Enlarged m c) {i j : Nat} {u : UnitEntry}
include h

/-- The relatives of a late unit are the other members of its family. -/
theorem Enlarged.relatives_eq (hi : m.units.length ≤ i) (hu : c.units[i]? = some u) :
    ∃ f, validFamily u = some f ∧ u.relatives = (members validFamily c.units f).filter (· ≠ i) ∧
      u.prime = primeOf? (members validFamily c.units f) i := by
  obtain ⟨hvalid, hfamily, -⟩ := h.late i u hi hu
  obtain ⟨f, hf⟩ := Option.isSome_iff_exists.mp hfamily
  have hvf : validFamily u = some f := by rw [validFamily, hvalid, if_pos rfl, hf]
  have hlink := (linkUnit_of_some hvf c.units i).symm.trans (h.linked.linkUnit_eq hu)
  exact ⟨f, hvf, (congrArg UnitEntry.relatives hlink).symm, (congrArg UnitEntry.prime hlink).symm⟩

theorem Enlarged.nodup_relatives (hi : m.units.length ≤ i) (hu : c.units[i]? = some u) :
    u.relatives.Nodup := by
  obtain ⟨f, -, hrelatives, -⟩ := h.relatives_eq hi hu
  rw [hrelatives]
  exact ((pairwise_places c.units _).imp Nat.ne_of_lt).filter _

theorem Enlarged.links_lt (hi : m.units.length ≤ i) (hu : c.units[i]? = some u)
    (hj : u.prime = some j ∨ j ∈ u.relatives) : j < c.units.length := by
  obtain ⟨f, -, hrelatives, hprime⟩ := h.relatives_eq hi hu
  rw [hrelatives, hprime] at hj
  rcases hj with hj | hj
  · exact lt_of_mem_members (mem_of_head? (Option.filter_eq_some_iff.mp hj).1)
  · exact lt_of_mem_members (mem_filter.mp hj).1

end Links

theorem Linked.operand_lt {c : Model} (h : c.Linked) (ho : o ∈ c.operations)
    (hi : .unit i ∈ o.operands) : i < c.units.length :=
  (mem_operationTable.mp (h.operationTable_eq.symm ▸ ho)).lt hi

end Quantity.Model
