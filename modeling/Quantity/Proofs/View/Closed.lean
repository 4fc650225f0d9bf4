import Quantity.Proofs.Model.Enlarged

/-!
# Views are closed

In a view, entries refer to each other by name. Which unit an operand meant in the model can still
be told: a shown unit by its name, since late units have names of their own, and a hidden one by its
module and name. `Viewed.closed` says so for all views that source is generated from, and also that
such a view has just the operations and externals that belong to the entries it shows.
-/

namespace Quantity.Model

open List

variable {m : Model} {s : Selection} {choice : Nat → Bool} {i : Nat} {u : UnitEntry}

/-! ### Units by place -/

/-- The places of the chosen units, in order. -/
def chosenPlaces (m : Model) (choice : Nat → Bool) : List Nat :=
  (List.range m.units.length).filter choice

theorem mem_chosenPlaces : i ∈ m.chosenPlaces choice ↔ i < m.units.length ∧ choice i = true := by
  rw [chosenPlaces, mem_filter, mem_range]

theorem pairwise_chosenPlaces (m : Model) (choice : Nat → Bool) :
    (m.chosenPlaces choice).Pairwise (· < ·) :=
  pairwise_lt_range.filter choice

def IsView (m : Model) (s : Selection) (i : Nat) (w : UnitView) : Prop :=
  ∃ u, m.units[i]? = some u ∧ w = m.viewUnit s i u

theorem forall₂_viewUnits (m : Model) (s : Selection) (choice : Nat → Bool) :
    List.Forall₂ (m.IsView s) (m.chosenPlaces choice) (m.viewUnits s choice) := by
  have hplaces : m.chosenPlaces choice =
      (m.units.zipIdx.filter fun x => choice x.2).map (·.2) := by
    have hrange : List.range m.units.length = m.units.zipIdx.map (·.2) := by
      rw [range_eq_range', zipIdx_map_snd]
    rw [chosenPlaces, hrange, filter_map]
    rfl
  have hviews : m.viewUnits s choice =
      (m.units.zipIdx.filter fun x => choice x.2).map fun x => m.viewUnit s x.2 x.1 := by
    rw [← filterMap_eq_map, filterMap_filter]
    rfl
  rw [hplaces, hviews, forall₂_map_left_iff, forall₂_map_right_iff, forall₂_same]
  rintro ⟨u, i⟩ hmem
  exact ⟨u, mem_zipIdx_iff_getElem?.mp (mem_filter.mp hmem).1, rfl⟩

theorem mem_viewUnits : w ∈ m.viewUnits s choice ↔ ∃ i, choice i = true ∧ m.IsView s i w := by
  have hall := m.forall₂_viewUnits s choice
  constructor
  · intro hw
    obtain ⟨k, hk, rfl⟩ := mem_iff_getElem.mp hw
    have hlt : k < (m.chosenPlaces choice).length := hall.length_eq ▸ hk
    exact ⟨_, (mem_chosenPlaces.mp (getElem_mem hlt)).2, hall.get hlt hk⟩
  · rintro ⟨i, hi, u, hu, rfl⟩
    have hmem : i ∈ m.chosenPlaces choice :=
      mem_chosenPlaces.mpr ⟨lt_of_getElem? hu, hi⟩
    obtain ⟨k, hk, rfl⟩ := mem_iff_getElem.mp hmem
    have hlt : k < (m.viewUnits s choice).length := hall.length_eq ▸ hk
    obtain ⟨w, hw, heq⟩ := hall.get hk hlt
    rw [get_eq_getElem, hu] at hw
    cases hw
    exact heq ▸ getElem_mem hlt

/-! ### References -/

theorem Selection.operation_iff :
    s.operation o = true ↔ ∃ i, .unit i ∈ o.operands ∧ s.unit i = true := by
  rw [Selection.operation, any_eq_true]
  constructor
  · rintro ⟨x, hx, hs⟩
    cases x with
    | unit i => exact ⟨i, hx, hs⟩
    | number k => cases hs
  · rintro ⟨i, hi, hs⟩
    exact ⟨.unit i, hi, hs⟩

theorem mem_chosen : x ∈ chosen xs choice ↔ ∃ i, xs[i]? = some x ∧ choice i = true := by
  rw [chosen, mem_filterMap]
  constructor
  · rintro ⟨⟨y, i⟩, hmem, h⟩
    dsimp only at h
    split_ifs at h with hi
    cases h
    exact ⟨i, mem_zipIdx_iff_getElem?.mp hmem, hi⟩
  · rintro ⟨i, hx, hi⟩
    exact ⟨(x, i), mem_zipIdx_iff_getElem?.mpr hx, by simp [hi]⟩

/-- **A chosen entry refers to the unit at a place**: it is an operand next to a chosen unit, the
prime or a relative of a chosen unit, or the unit of a chosen scale. -/
inductive Refers (m : Model) (s : Selection) (i : Nat) : Prop where
  | operand {o : Operation} {j : Nat} (ho : o ∈ m.operations) (hj : .unit j ∈ o.operands)
      (hs : s.unit j = true) (hi : .unit i ∈ o.operands) : Refers m s i
  | family {j : Nat} {u : UnitEntry} (hu : m.units[j]? = some u) (hs : s.unit j = true)
      (hi : u.prime = some i ∨ i ∈ u.relatives) : Refers m s i
  | scale {j : Nat} {e : ScaleEntry} (he : m.scales[j]? = some e) (hs : s.scale j = true)
      (hi : e.unit = some i) : Refers m s i

theorem refersTo_iff : m.refersTo s i = true ↔ m.Refers s i := by
  simp only [refersTo, Bool.or_eq_true, any_eq_true, decide_eq_true_eq,
    contains_eq_mem, chosenOperations, mem_filter, mem_chosen, Operation.involves]
  constructor
  · rintro ((⟨o, ⟨ho, hs⟩, hi⟩ | ⟨u, ⟨j, hu, hs⟩, hi⟩) | ⟨e, ⟨j, he, hs⟩, hi⟩)
    · obtain ⟨j, hj, hs⟩ := Selection.operation_iff.mp hs
      exact .operand ho hj hs hi
    · exact .family hu hs hi
    · exact .scale he hs hi
  · rintro (⟨ho, hj, hs, hi⟩ | ⟨hu, hs, hi⟩ | ⟨he, hs, hi⟩)
    · exact .inl (.inl ⟨_, ⟨ho, Selection.operation_iff.mpr ⟨_, hj, hs⟩⟩, hi⟩)
    · exact .inl (.inr ⟨_, ⟨_, hu, hs⟩, hi⟩)
    · exact .inr ⟨_, ⟨_, he, hs⟩, hi⟩

theorem isExternal_iff : m.isExternal s i = true ↔ s.unit i = false ∧ m.Refers s i := by
  rw [isExternal, Bool.and_eq_true, Bool.not_eq_true', refersTo_iff]

/-! ### Names -/

/-- **Names tell units apart**: shown units have names of their own, hidden ones have their modules
too, and all references lead to units. -/
structure Legible (m : Model) (s : Selection) : Prop where
  shown : ∀ i j u w, m.units[i]? = some u → m.units[j]? = some w → s.unit i = true →
    s.unit j = true → u.name = w.name → i = j
  hidden : ∀ i j u w, m.units[i]? = some u → m.units[j]? = some w → s.unit i = false →
    s.unit j = false → u.origin.module? = w.origin.module? → u.name = w.name → i = j
  owned : ∀ i u, m.units[i]? = some u → s.unit i = false → ∃ module, u.origin.module? = some module
  refers : ∀ i, m.Refers s i → i < m.units.length

section Legible

variable (h : Legible m s)
include h

theorem Legible.shownUnit? (hu : m.units[i]? = some u) (hi : s.unit i = true) :
    (m.view s).shownUnit? u.name = some (m.viewUnit s i u) := by
  refine find?_eq_some_of_unique ?_ (decide_eq_true rfl) fun w hw hname => ?_
  · rw [mem_reverse]
    exact mem_viewUnits.mpr ⟨i, hi, u, hu, rfl⟩
  · rw [mem_reverse] at hw
    obtain ⟨j, hj, v, hv, rfl⟩ := mem_viewUnits.mp hw
    have hij := h.shown i j u v hu hv hi hj (of_decide_eq_true hname).symm
    subst hij
    rw [hu] at hv
    cases hv
    rfl

/-- **An operand leads back to its unit**, shown or hidden. -/
theorem Legible.operandUnit? (hu : m.units[i]? = some u) (hi : s.unit i = true ∨ m.Refers s i) :
    (m.view s).operandUnit? (m.viewOperand s (.unit i)) = some (m.viewUnit s i u) := by
  have hname : (m.unitName? i).getD "" = u.name := by rw [unitName?, hu]; rfl
  cases hs : s.unit i with
  | true =>
    have hoperand : m.viewOperand s (.unit i) = { name := u.name } := by
      rw [viewOperand, hname, hs]
      rfl
    rw [hoperand]
    exact h.shownUnit? hu hs
  | false =>
    obtain ⟨module, hmodule⟩ := h.owned i u hu hs
    have hoperand : m.viewOperand s (.unit i) = { name := u.name, module := some module } := by
      rw [viewOperand, hname, hs, hu, ← hmodule]
      rfl
    have hrefers : m.Refers s i := hi.resolve_left (by rw [hs]; exact Bool.false_ne_true)
    rw [hoperand]
    refine find?_eq_some_of_unique ?_ ?_ fun w hw hfound => ?_
    · exact mem_viewUnits.mpr ⟨i, isExternal_iff.mpr ⟨hs, hrefers⟩, u, hu, rfl⟩
    · simp [viewUnit, hmodule]
    · obtain ⟨j, hj, v, hv, rfl⟩ := mem_viewUnits.mp hw
      obtain ⟨hfoundName, hfoundModule⟩ := Bool.and_eq_true_iff.mp hfound
      have hfoundName : v.name = u.name := of_decide_eq_true hfoundName
      have hfoundModule : v.origin.module? = some module := of_decide_eq_true hfoundModule
      have hij := h.hidden i j u v hu hv hs (isExternal_iff.mp hj).1
        (hmodule.trans hfoundModule.symm) hfoundName.symm
      subst hij
      rw [hu] at hv
      cases hv
      rfl

end Legible

/-! ### The views that are taken -/

/-- **A model of loaded modules**: all units come from modules, and no two units of a module have
the same name. -/
structure IsLoaded (m : Model) : Prop where
  origin : ∀ u ∈ m.units, ∃ module, u.origin = .restored module
  distinct : (m.units.map fun u => (u.origin.module?, u.name)).Nodup

/-- **The views that source is generated from**: of all that a text without errors defines, or of
the late entries of a text without errors behind loaded modules. -/
inductive Viewed : Model → Selection → Prop where
  | full {text : String} {options : Options} {c : Compilation}
      (hc : compile text options = .ok c) (hok : c.isSuccess = true) : Viewed c.model .full
  | late {m : Model} {text : String} {options : Options} {c : Compilation} (hm : m.IsLoaded)
      (hc : m.extend text options = .ok c) (hok : c.isSuccess = true) :
      Viewed c.model (.late c.model)

section Enlarged

variable {c : Model}

theorem late_unit_iff (h : Enlarged m c) :
    (Selection.late c).unit i = true ↔ m.units.length ≤ i := by
  rw [← h.lateUnits]
  exact decide_eq_true_iff

theorem late_scale_iff (h : Enlarged m c) :
    (Selection.late c).scale i = true ↔ m.scales.length ≤ i := by
  rw [← h.lateScales]
  exact decide_eq_true_iff

theorem Enlarged.refers_lt (h : Enlarged m c) (hunits : ∀ i, s.unit i = true → m.units.length ≤ i)
    (hscales : ∀ i, s.scale i = true → m.scales.length ≤ i) (hi : c.Refers s i) :
    i < c.units.length := by
  rcases hi with ⟨ho, -, -, hi⟩ | ⟨hu, hs, hi⟩ | ⟨he, hs, hi⟩
  · exact h.linked.operand_lt ho hi
  · exact h.links_lt (hunits _ hs) hu hi
  · obtain ⟨j, hj, hlt⟩ := h.scales _ _ (hscales _ hs) he
    rw [hj] at hi
    cases hi
    exact hlt

theorem Enlarged.legible_full (h : Enlarged {} c) : Legible c .full where
  shown i j u w hu hw _ _ hname := h.names i j u w (Nat.zero_le _) (Nat.zero_le _) hu hw hname
  hidden _ _ _ _ _ _ hi := absurd hi.symm Bool.false_ne_true
  owned _ _ _ hi := absurd hi.symm Bool.false_ne_true
  refers _ := h.refers_lt (fun _ _ => Nat.zero_le _) fun _ _ => Nat.zero_le _

theorem Enlarged.legible_late (h : Enlarged m c) (hm : m.IsLoaded) : Legible c (.late c) where
  shown i j u w hu hw hi hj hname :=
    h.names i j u w ((late_unit_iff h).mp hi) ((late_unit_iff h).mp hj) hu hw hname
  hidden i j u w hu hw hi hj hmodule hname := by
    have hearly {k : Nat} (hk : (Selection.late c).unit k = false) : k < m.units.length :=
      Nat.lt_of_not_le fun hle => Bool.false_ne_true (hk.symm.trans ((late_unit_iff h).mpr hle))
    obtain ⟨u', hu', huname, huorigin⟩ := h.early i u (hearly hi) hu
    obtain ⟨w', hw', hwname, hworigin⟩ := h.early j w (hearly hj) hw
    refine (getElem?_inj ?_ hm.distinct).mp ?_
    · rw [length_map]
      exact hearly hi
    · rw [getElem?_map, getElem?_map, hu', hw', Option.map_some, Option.map_some,
        huname, hwname, huorigin, hworigin, hmodule, hname]
  owned i u hu hi := by
    have hearly : i < m.units.length :=
      Nat.lt_of_not_le fun hle => Bool.false_ne_true (hi.symm.trans ((late_unit_iff h).mpr hle))
    obtain ⟨w, hw, -, horigin⟩ := h.early i u hearly hu
    obtain ⟨module, hmodule⟩ := hm.origin w (mem_of_getElem? hw)
    exact ⟨module, by rw [← horigin, hmodule]; rfl⟩
  refers _ := h.refers_lt (fun _ => (late_unit_iff h).mp) fun _ => (late_scale_iff h).mp

/-- The units of a text without errors are loaded once they belong to a module. -/
theorem Enlarged.isLoaded_settle (h : Enlarged {} c) (module : String) :
    (c.settle module).IsLoaded where
  origin u hu := by
    obtain ⟨w, hw, rfl⟩ := mem_map.mp hu
    obtain ⟨i, hi⟩ := mem_iff_getElem?.mp hw
    obtain ⟨-, -, hdeclared⟩ := h.late i w (Nat.zero_le _) hi
    cases horigin : w.origin with
    | declared span => exact ⟨module, rfl⟩
    | restored other =>
      rw [horigin] at hdeclared
      cases hdeclared
  distinct := by
    refine List.Nodup.of_map Prod.snd ?_
    rw [nodup_iff_getElem?_ne_getElem?]
    intro i j hij hj heq
    simp only [settle, getElem?_map, length_map, Option.map_map] at hj heq
    rw [getElem?_eq_getElem hj, getElem?_eq_getElem (Nat.lt_trans hij hj),
      Option.map_some, Option.map_some, Option.some.injEq] at heq
    have := h.names i j _ _ (Nat.zero_le _) (Nat.zero_le _)
      (getElem?_eq_getElem (Nat.lt_trans hij hj)) (getElem?_eq_getElem hj) heq
    omega

end Enlarged

theorem Viewed.legible (h : Viewed m s) : Legible m s := by
  cases h with
  | full hc hok => exact (enlarged_of_extend hc hok).legible_full
  | late hm hc hok => exact (enlarged_of_extend hc hok).legible_late hm

/-- **A view of a unit tells which unit is meant**, and what numbers of it are worth. -/
structure Depicts (u : UnitEntry) (w : UnitView) : Prop where
  module : w.module = u.origin.module?
  name : w.name = u.name
  kind : w.kind = u.kind
  factor : w.factor = u.factor
  family : w.family = u.family

/-- **An operand of a view stands for one of the model.** A number is given by its type. A unit is
given by its name, and by its module if it is hidden, and it is found in the view. -/
inductive StandsFor (m : Model) (s : Selection) : Operand → OperandView → Prop where
  | number {k : NumericKind} {x : OperandView} (number : x.number = true)
      (name : x.name = k.typeName) (module : x.module = none) : StandsFor m s (.number k) x
  | unit {i : Nat} {x : OperandView} {u : UnitEntry} {w : UnitView} (hu : m.units[i]? = some u)
      (number : x.number = false) (name : x.name = u.name)
      (shown : s.unit i = true → x.module = none)
      (hidden : s.unit i = false → x.module = u.origin.module?)
      (found : (m.view s).operandUnit? x = some w) (view : m.IsView s i w) (depicts : Depicts u w) :
      StandsFor m s (.unit i) x

/-- **An operation of a view is one of the model**, with the same operator and the same operands. -/
structure Renders (m : Model) (s : Selection) (o : Operation) (p : OperationView) : Prop where
  operator : p.operator = o.operator
  lhs : m.StandsFor s o.lhs p.lhs
  rhs : m.StandsFor s o.rhs p.rhs
  result : m.StandsFor s o.result p.result

theorem depicts_viewUnit (m : Model) (s : Selection) (i : Nat) (u : UnitEntry) :
    Depicts u (m.viewUnit s i u) :=
  ⟨rfl, rfl, rfl, rfl, rfl⟩

theorem Legible.standsFor (h : Legible m s) (ho : o ∈ m.operations) (hs : s.operation o = true)
    (hx : x ∈ o.operands) : m.StandsFor s x (m.viewOperand s x) := by
  cases x with
  | number k => exact .number rfl rfl rfl
  | unit i =>
    obtain ⟨j, hj, hchosen⟩ := Selection.operation_iff.mp hs
    have hrefers : m.Refers s i := .operand ho hj hchosen hx
    have hu := getElem?_eq_getElem (h.refers i hrefers)
    have hfound := h.operandUnit? hu (.inr hrefers)
    refine .unit hu rfl ?_ (fun hi => ?_) (fun hi => ?_) hfound ⟨_, hu, rfl⟩
      (m.depicts_viewUnit s i _)
    · show (m.unitName? i).getD "" = _
      rw [unitName?, hu]
      rfl
    · exact if_pos hi
    · show (if s.unit i = true then none else (m.units[i]?).bind (·.origin.module?)) = _
      rw [hi, if_neg Bool.false_ne_true, hu]
      rfl

/-- **Views are closed.** The operations of a view are those of the model with a chosen unit, in
order. Each operand is a number, or it leads to the view of just the unit that is meant. The
externals are, once each and in order, the units that are not chosen and that a chosen entry refers
to. -/
theorem Viewed.closed (h : Viewed m s) :
    List.Forall₂ (m.Renders s) (m.operations.filter s.operation) (m.view s).operations ∧
      (∀ o, s.operation o = true ↔ ∃ i, .unit i ∈ o.operands ∧ s.unit i = true) ∧
      ∃ places, places.Pairwise (· < ·) ∧
        (∀ i, i ∈ places ↔ s.unit i = false ∧ m.Refers s i) ∧
        List.Forall₂ (fun i w => m.IsView s i w ∧ ∃ u, m.units[i]? = some u ∧ Depicts u w) places
          (m.view s).externals := by
  have hlegible := h.legible
  refine ⟨?_, fun _ => Selection.operation_iff, m.chosenPlaces (m.isExternal s),
    m.pairwise_chosenPlaces _, fun i => ?_, (m.forall₂_viewUnits s _).imp fun i w hw => ?_⟩
  · show List.Forall₂ _ (m.chosenOperations s) ((m.chosenOperations s).map (m.viewOperation s))
    rw [forall₂_map_right_iff, forall₂_same]
    intro o ho
    have hstands := fun x hx => hlegible.standsFor (x := x) (mem_filter.mp ho).1 (mem_filter.mp ho).2 hx
    exact ⟨rfl, hstands _ (by simp [Operation.operands]), hstands _ (by simp [Operation.operands]),
      hstands _ (by simp [Operation.operands])⟩
  · rw [mem_chosenPlaces, isExternal_iff]
    exact and_iff_right_of_imp fun hi => hlegible.refers i hi.2
  · obtain ⟨u, hu, rfl⟩ := hw
    exact ⟨⟨u, hu, rfl⟩, u, hu, m.depicts_viewUnit s i u⟩

def lengthsAndArea : String :=
  "unit Meter \"m\" = <Length>; unit Foot \"ft\" = 0.3 * Meter; unit Area \"a\" = Meter * Meter;"

def otherFeet : String := "unit Foot \"ft\" = 0.5 * Meter;"

/-- Feet of two lengths, one loaded and one late, are told apart where they are multiplied. -/
theorem Viewed.closed_otherFeet :
    ∃ c d u v w, compile lengthsAndArea { kind := .decimal } = .ok c ∧
      (c.model.settle "si").IsLoaded ∧
      (c.model.settle "si").extend otherFeet { kind := .decimal } = .ok d ∧ d.isSuccess = true ∧
      d.model.lateView.externals.map (fun u => (u.module, u.name)) =
        [(some "si", "Meter"), (some "si", "Foot"), (some "si", "Area")] ∧
      ⟨.product, ⟨"Foot", some "si", false⟩, ⟨"Foot", none, false⟩, ⟨"Area", some "si", false⟩⟩ ∈
        d.model.lateView.operations ∧
      d.model.units.map (·.name) = ["Meter", "Foot", "Area", "Foot"] ∧
      d.model.units[1]? = some u ∧ d.model.units[3]? = some v ∧ u.factor ≠ v.factor ∧
      d.model.lateView.operandUnit? ⟨"Foot", some "si", false⟩ = some w ∧ Depicts u w ∧
      ∃ w', d.model.lateView.operandUnit? ⟨"Foot", none, false⟩ = some w' ∧ Depicts v w' := by
  obtain ⟨c, hc, d, hd, hcok, hdok, hnames, hfactors, hexternals, hzip⟩ :
      ∃ c, compile lengthsAndArea { kind := .decimal } = .ok c ∧
        ∃ d, (c.model.settle "si").extend otherFeet { kind := .decimal } = .ok d ∧
          c.isSuccess = true ∧ d.isSuccess = true ∧
          d.model.units.map (·.name) = ["Meter", "Foot", "Area", "Foot"] ∧
          (d.model.units[1]?).map (·.factor) ≠ (d.model.units[3]?).map (·.factor) ∧
          d.model.lateView.externals.map (fun u => (u.module, u.name)) =
            [(some "si", "Meter"), (some "si", "Foot"), (some "si", "Area")] ∧
          (⟨.product, .unit 1, .unit 3, .unit 2⟩,
            ⟨.product, ⟨"Foot", some "si", false⟩, ⟨"Foot", none, false⟩,
              ⟨"Area", some "si", false⟩⟩) ∈
            (d.model.operations.filter (Selection.late d.model).operation).zip
              d.model.lateView.operations := by
    decide +kernel
  have hloaded := (enlarged_of_extend hc hcok).isLoaded_settle "si"
  obtain ⟨hoperations, -⟩ := (Viewed.late hloaded hd hdok).closed
  obtain ⟨-, hlhs, hrhs, -⟩ := forall₂_zip hoperations hzip
  cases hlhs with
  | @unit _ _ u w hu _ _ _ _ hfound _ hdepicts =>
  cases hrhs with
  | @unit _ _ v w' hv _ _ _ _ hfound' _ hdepicts' =>
  rw [hu, hv] at hfactors
  exact ⟨c, d, u, v, w, hc, hloaded, hd, hdok, hexternals, (of_mem_zip hzip).2, hnames, hu, hv,
    fun heq => hfactors (congrArg some heq), hfound, hdepicts, w', hfound', hdepicts'⟩

end Quantity.Model
