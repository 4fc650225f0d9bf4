import Quantity.Proofs.Catalog.Restored
import Quantity.Proofs.Expr.Stack
import Quantity.Proofs.Model.LateOperations

/-!
# Places that are in range

The entries of a model refer to each other by their places. `Model.InRange` says that all these
places are places of entries, and `Model.Produced.inRange` that it holds of every model that can
come about, though places change whenever late units are removed. So nothing a text can say makes
a compilation fail.
-/

namespace Quantity

open List

/-- The other units of its family that a unit refers to. -/
def UnitEntry.links (u : UnitEntry) : List Nat := u.prime.toList ++ u.relatives

/-- The other scales of its family that a scale refers to. -/
def ScaleEntry.links (s : ScaleEntry) : List Nat := s.prime.toList ++ s.relatives

namespace Elaborate

variable {options : Options} {m : Model} {us : List UnitDecl} {p q r : Progress} {todo : Todo}

/-! ### Late entries -/

theorem Stages.links_late (h : Stages options m us q todo s retired r) (hk : m.units.length ≤ k)
    (hu : r.units[k]? = some u) : u.links = [] ∧ u.operations = [] := by
  obtain ⟨d, -, redeclared, rfl | ⟨e, valid, -, rfl⟩⟩ := h.late_cases hk hu
  · exact ⟨rfl, rfl⟩
  · exact ⟨rfl, rfl⟩

/-- **Units refer to units**: those that there were keep their places, and late ones refer to
nothing yet. -/
theorem Stages.links_lt (h : Stages options m us q todo s retired r)
    (hm : ∀ u ∈ m.units, ∀ i ∈ u.links, i < m.units.length) :
    ∀ u ∈ r.units, ∀ i ∈ u.links, i < r.units.length := by
  intro u hu i hi
  obtain ⟨k, hk⟩ := mem_iff_getElem?.mp hu
  by_cases hlt : k < m.units.length
  · rw [h.early hlt] at hk
    have hi := hm u (mem_of_getElem? hk) i hi
    exact (List.getElem?_eq_some_iff.mp ((h.early hi).trans (List.getElem?_eq_getElem hi))).1
  · rw [(h.links_late (Nat.le_of_not_lt hlt) hk).1] at hi
    cases hi

theorem IsScaleOf.unit_eq (h : IsScaleOf options scope d s) :
    s.unit = scope.names.get? d.unit ∧ s.links = [] ∧ s.name = d.name ∧
      s.origin = .declared d.span := by
  rcases h with rfl | h
  · exact ⟨rfl, rfl, rfl, rfl⟩
  · obtain ⟨i, u, offset, -, -, -, -, rfl⟩ := encodeScale_eq_ok_iff.mp h
    exact ⟨rfl, rfl, rfl, rfl⟩

/-! ### Tables -/

/-- There is a state for every unit, and names lead to units. -/
structure Progress.InRange (p : Progress) : Prop where
  states : p.states.length = p.units.length
  names : ∀ name i, p.names.get? name = some i → i < p.units.length

/-- **All places that are looked up while units get their meaning are places of units**: once
they are declared, when the passes have ended, and when late units were removed. -/
structure StaysInRange (options : Options) (m : Model) (ds : Diagnostics) (us : List UnitDecl) :
    Prop where
  declared : (declareAll options m ds us).1.InRange
  tags : TagsInRange (declareAll options m ds us).1
  pending : ∀ x ∈ (declareAll options m ds us).2.pending,
    x.1 < (declareAll options m ds us).1.units.length
  aliases : ∀ a ∈ (declareAll options m ds us).2.aliases,
    a.1 < (declareAll options m ds us).1.units.length ∧
      a.2 < (declareAll options m ds us).1.units.length
  encoded : ∃ q, encodeUnits options (declareAll options m ds us).1
      (declareAll options m ds us).2.pending = .ok q ∧ q.InRange ∧
    q.units.length = (declareAll options m ds us).1.units.length
  removed : ∃ r, elaborateUnits options m ds us = .ok r ∧ r.InRange

theorem staysInRange (options : Options) (ds : Diagnostics) (hlate : m.lateUnits = m.units.length)
    (hus : ∀ d ∈ us, d.IsProduct) : StaysInRange options m ds us := by
  have hd := declared_declareUnits m.units.length us (declared_start options m ds)
  obtain ⟨htables, htags⟩ := tables_declareUnits us (declared_start options m ds) tables_start
    tagsInRange_start
  rw [← hlate] at hd htables htags
  constructor
  case declared =>
    exact ⟨hd.length_states, hd.names_lt⟩
  case tags =>
    exact htags
  case pending =>
    rintro ⟨i, d⟩ hmem
    obtain ⟨-, k, rfl, hk⟩ := hd.pending i d hmem
    exact hd.place_lt hk
  case aliases =>
    rintro ⟨i, j⟩ hmem
    obtain ⟨-, hi, name, hname, hj⟩ := (htables.claims.mem i j).mp hmem
    have hlt := hd.names_lt name i hname
    exact ⟨hlt, Nat.lt_trans (Nat.lt_of_lt_of_le (Model.getLast?_places_lt hj) hi) hlt⟩
  case encoded =>
    rcases encodeUnits_cases hd with ⟨-, -, d, hmem, hproduct⟩ | ⟨r, deferred, hr, hstuck⟩
    · exact absurd (hus d hmem) hproduct
    · have hadv := hstuck.advances
      have hlength := hadv.length.trans (hd.length_states.trans hadv.length_units.symm)
      refine ⟨_, hr, ⟨hlength, fun name i hi => ?_⟩, hadv.length_units⟩
      exact (hstuck.tables htables).named.lt hi
  case removed =>
    obtain ⟨r, hr⟩ := exists_elaborateUnits options m ds hus
    obtain ⟨q, todo, s, retired, hstages⟩ := exists_stages hlate hr
    exact ⟨r, hr, hstages.behind.length, fun name i hi => hstages.named.lt hi⟩

theorem encodeUnit_ne_internal (h : d.IsProduct) (scope : Scope) (kind : NumericKind)
    (message : String) : encodeUnit scope kind d ≠ .error (.internal message) :=
  fun he => absurd h (justified_of_encodeUnit he)

/-- **What declarations add to a model**, stage by stage. -/
theorem exists_stages_of_elaborate (hlate : m.lateUnits = m.units.length)
    (h : elaborate options m ds decls = .ok (e, ds')) :
    ∃ p q todo s retired added, elaborateUnits options m ds decls.units = .ok p ∧
      Stages options m decls.units q todo s retired p ∧ e.units = p.units ∧
      e.scales = m.scales ++ added ∧ e.operations = m.operations ∧
      List.Forall₂ (IsScaleOf options p.toScope) decls.scales added := by
  obtain ⟨p, hp, -⟩ := bind_eq_ok_iff.mp h
  obtain ⟨q, todo, s, retired, hstages⟩ := exists_stages hlate hp
  obtain ⟨added, hadded, hall⟩ := exists_declareScales options m.lateUnits m.lateScales p.toScope
    decls.scales ⟨m.scales, scaleNames m, p.diagnostics⟩
  rw [elaborate_eq hp] at h
  obtain ⟨rfl, -⟩ := h
  exact ⟨p, q, todo, s, retired, added, hp, hstages, rfl, hadded, rfl, hall⟩

end Elaborate

namespace Model

/-! ### Models -/

/-- **All places that the entries of a model refer to are places of its entries.** -/
structure InRange (m : Model) : Prop where
  units : ∀ u ∈ m.units, ∀ i ∈ u.links, i < m.units.length
  unitOperations : ∀ u ∈ m.units, ∀ i ∈ u.operations, i < m.operations.length
  scales : ∀ s ∈ m.scales, ∀ i ∈ s.links, i < m.scales.length
  scaleUnits : ∀ s ∈ m.scales, ∀ i, s.unit = some i → i < m.units.length
  operations : ∀ o ∈ m.operations, ∀ i, .unit i ∈ o.operands → i < m.units.length

theorem lt_of_mem_members (h : i ∈ members family xs f) : i < xs.length := by
  obtain ⟨x, hx, -⟩ := mem_places.mp h
  exact lt_of_getElem? hx

theorem mem_links_of_family (h : k ∈ (primeOf? family i).toList ++ family.filter (· ≠ i)) :
    k ∈ family := by
  rcases mem_append.mp h with h | h
  · rw [Option.mem_toList] at h
    exact mem_of_head? (Option.filter_eq_some_iff.mp h).1
  · exact (mem_filter.mp h).1

theorem links_linkUnit {units : List UnitEntry} (h : k ∈ (linkUnit units u i).links) :
    k ∈ u.links ∨ k < units.length := by
  unfold linkUnit at h
  split at h
  · exact .inl h
  · exact .inr (lt_of_mem_members (mem_links_of_family h))

theorem links_linkScale {scales : List ScaleEntry} (h : k ∈ (linkScale scales s i).links) :
    k ∈ s.links ∨ k < scales.length := by
  unfold linkScale at h
  split at h
  · exact .inl h
  · exact .inr (lt_of_mem_members (mem_links_of_family h))

theorem Entry.lt {units : List UnitEntry} (h : Entry units o) (hi : .unit i ∈ o.operands) :
    i < units.length := by
  cases h with
  | productNumber hl hr _ _ =>
    simp [Operation.operands] at hi
    rcases hi with rfl | rfl
    · exact hl.lt
    · exact hr.lt
  | productUnit hl hr _ _ _ hresult =>
    simp [Operation.operands] at hi
    rcases hi with rfl | rfl | rfl
    · exact hl.lt
    · exact hr.lt
    · exact hresult.lt
  | quotient hl hr _ _ _ _ hresult =>
    simp [Operation.operands] at hi
    rcases hi with rfl | rfl | rfl
    · exact hl.lt
    · exact hr.lt
    · exact hresult.lt
  | reciprocal hr _ hresult =>
    simp [Operation.operands] at hi
    rcases hi with rfl | rfl
    · exact hr.lt
    · exact hresult.lt

theorem inRange_connected (e : Model) {units : List UnitEntry} {scales : List ScaleEntry}
    (hu : ∀ u ∈ units, ∀ i ∈ u.links, i < units.length)
    (hs : ∀ s ∈ scales, ∀ i ∈ s.links, i < scales.length)
    (hsu : ∀ s ∈ scales, ∀ i, s.unit = some i → i < units.length) :
    (e.connected units scales).resolveOperations.InRange := by
  have hlength : (e.connected units scales).resolveOperations.units.length = units.length := by
    simp [connected, resolveOperations]
  have hscales : (e.connected units scales).resolveOperations.scales =
      scales.mapIdx fun i s => linkScale scales s i := rfl
  constructor
  case units =>
    intro u hmem k hk
    rw [hlength]
    obtain ⟨i, hi⟩ := mem_iff_getElem?.mp hmem
    simp only [connected, resolveOperations, getElem?_mapIdx, Option.map_map,
      Option.map_eq_some_iff] at hi
    obtain ⟨v, hv, rfl⟩ := hi
    rcases links_linkUnit hk with hk | hk
    · exact hu v (mem_of_getElem? hv) k hk
    · exact hk
  case unitOperations =>
    intro u hmem k hk
    obtain ⟨i, hi⟩ := mem_iff_getElem?.mp hmem
    simp only [resolveOperations, getElem?_mapIdx,
      Option.map_eq_some_iff] at hi
    obtain ⟨v, -, rfl⟩ := hi
    have hk : k ∈ places (operationTable (e.connected units scales).units) (·.involves i) := hk
    obtain ⟨o, ho, -⟩ := mem_places.mp hk
    exact lt_of_getElem? ho
  case scales =>
    intro t hmem k hk
    rw [hscales] at hmem ⊢
    rw [length_mapIdx]
    obtain ⟨i, hi⟩ := mem_iff_getElem?.mp hmem
    rw [getElem?_mapIdx] at hi
    obtain ⟨s, hs', rfl⟩ := Option.map_eq_some_iff.mp hi
    rcases links_linkScale hk with hk | hk
    · exact hs s (mem_of_getElem? hs') k hk
    · exact hk
  case scaleUnits =>
    intro t hmem k hk
    rw [hlength]
    obtain ⟨s, hmem', heq⟩ := exists_mem_of_map_eq (map_unlinked_scales e units scales) hmem
    have hunit : s.unlinked.unit = t.unlinked.unit := congrArg ScaleEntry.unit heq
    exact hsu s hmem' k (hunit.trans hk)
  case operations =>
    intro o ho i hi
    rw [hlength]
    have hlt := (mem_operationTable.mp ho).lt hi
    simpa [connected] using hlt

/-- A model that can come about: it is restored, or texts were added to what there was. -/
inductive Produced : Model → Prop
  | empty : Produced {}
  | restored {c : Catalog} {m : Model} (h : c.restore = .ok m) : Produced m
  | settled {m : Model} (h : Produced m) (module : String) : Produced (m.settle module)
  | extended {m : Model} {text : String} {options : Options} {c : Compilation} (h : Produced m)
      (hc : m.extend text options = .ok c) : Produced c.model

theorem inRange_restored {c : Catalog} (h : c.restore = .ok m) : m.InRange := by
  rw [Catalog.restore_eq_ok h]
  constructor
  case units =>
    intro u hu i hi
    obtain ⟨d, -, rfl⟩ := mem_map.mp hu
    cases hi
  case unitOperations =>
    intro u hu i hi
    obtain ⟨d, -, rfl⟩ := mem_map.mp hu
    cases hi
  case scales =>
    intro s hs i hi
    obtain ⟨d, -, rfl⟩ := mem_map.mp hs
    cases hi
  case scaleUnits =>
    intro s hs i hi
    obtain ⟨d, -, rfl⟩ := mem_map.mp hs
    have hlt := getLast?_places_lt hi
    simpa [Catalog.restored] using hlt
  case operations => exact fun o ho => absurd ho not_mem_nil

theorem InRange.settle {m : Model} (h : m.InRange) (module : String) : (m.settle module).InRange := by
  have hlength : (m.settle module).units.length = m.units.length := length_map _
  have hscales : (m.settle module).scales.length = m.scales.length := length_map _
  constructor
  case units =>
    intro u hu i hi
    obtain ⟨v, hv, rfl⟩ := mem_map.mp hu
    exact hlength ▸ h.units v hv i hi
  case unitOperations =>
    intro u hu i hi
    obtain ⟨v, hv, rfl⟩ := mem_map.mp hu
    exact h.unitOperations v hv i hi
  case scales =>
    intro s hs i hi
    obtain ⟨t, ht, rfl⟩ := mem_map.mp hs
    exact hscales ▸ h.scales t ht i hi
  case scaleUnits =>
    intro s hs i hi
    obtain ⟨t, ht, rfl⟩ := mem_map.mp hs
    exact hlength ▸ h.scaleUnits t ht i hi
  case operations => exact fun o ho i hi => hlength ▸ h.operations o ho i hi

section Extend

variable {m : Model} {text : String} {options : Options} {c : Compilation}

/-- **Late entries are in range**, and the others stay so. -/
theorem InRange.extend (h : m.InRange) (hc : m.extend text options = .ok c) : c.model.InRange := by
  obtain ⟨e, ds, us, ss, he, hadds, -, hmodel⟩ := exists_extended hc
  obtain ⟨p, q, todo, s, retired, added, -, hstages, hunits, hscales, -, hadded⟩ :=
    Elaborate.exists_stages_of_elaborate rfl he
  have hle : m.units.length ≤ e.units.length := by
    rw [hadds.eq]
    simp [beginLate]
  have hle' : m.scales.length ≤ e.scales.length := by
    rw [hscales]
    simp [beginLate]
  -- a scale that there was, or one of a declaration, whose unit is found by its name
  have hscale : ∀ t ∈ e.scales, (∀ i ∈ t.links, i < e.scales.length) ∧
      ∀ i, t.unit = some i → i < e.units.length := by
    intro t ht
    rw [hscales] at ht
    rcases mem_append.mp ht with ht | ht
    · exact ⟨fun i hi => Nat.lt_of_lt_of_le (h.scales t ht i hi) hle',
        fun i hi => Nat.lt_of_lt_of_le (h.scaleUnits t ht i hi) hle⟩
    · obtain ⟨d, -, hd⟩ := Elaborate.exists_isScaleOf hadded ht
      obtain ⟨hunit, hlinks, -⟩ := hd.unit_eq
      refine ⟨fun i hi => ?_, fun i hi => ?_⟩
      · rw [hlinks] at hi
        cases hi
      · rw [hunits]
        exact hstages.named.lt (hunit.symm.trans hi)
  -- families change none of this
  have hnumbered : (e.numberedUnits options.firstFamily).map UnitEntry.links =
      e.units.map UnitEntry.links := by
    refine map_fill ?_ _ _
    exact fun _ _ => rfl
  have hnumbered' : (e.numberedScales options.firstFamily).map
      (fun s => (ScaleEntry.links s, s.unit)) = e.scales.map fun s => (s.links, s.unit) := by
    refine map_fill ?_ _ _
    exact fun _ _ => rfl
  have hlength := congrArg List.length hnumbered
  have hlength' := congrArg List.length hnumbered'
  rw [length_map, length_map] at hlength hlength'
  rw [hmodel]
  refine inRange_connected e (fun u hu i hi => ?_) (fun t ht i hi => ?_) fun t ht i hi => ?_
  · obtain ⟨v, hv, heq⟩ := exists_mem_of_map_eq hnumbered hu
    rw [hlength, hunits]
    exact hstages.links_lt h.units v (hunits ▸ hv) i (heq ▸ hi)
  · obtain ⟨v, hv, heq⟩ := exists_mem_of_map_eq hnumbered' ht
    exact hlength' ▸ (hscale v hv).1 i ((Prod.mk.inj heq).1 ▸ hi)
  · obtain ⟨v, hv, heq⟩ := exists_mem_of_map_eq hnumbered' ht
    exact hlength ▸ (hscale v hv).2 i ((Prod.mk.inj heq).2.trans hi)

/-- **Every model that can come about is in range.** -/
theorem Produced.inRange (h : Produced m) : m.InRange := by
  induction h with
  | empty =>
    refine ⟨fun u hu => ?_, fun u hu => ?_, fun s hs => ?_, fun s hs => ?_, fun o ho => ?_⟩
    all_goals exact absurd ‹_› not_mem_nil
  | restored h => exact inRange_restored h
  | settled _ module ih => exact ih.settle module
  | extended _ hc ih => exact ih.extend hc

/-- **Whatever a text says, it is compiled**, unless there are more families than numbers. The
definitions of units that are read are products, so none of them fails internally; whatever the
expression, no operand is missing on the stack and none is left over; and all places that are looked
up, in the tables and in the model that is left, are places of entries. -/
theorem Produced.extend_succeeds (hm : m.Produced) (text : String) (options : Options) :
    (∀ d ∈ (Declarations.read options.source text).1.units, d.IsProduct ∧
        ∀ scope kind message, Elaborate.encodeUnit scope kind d ≠ .error (.internal message)) ∧
      (∀ lookup e, (Expr.visitDimension lookup e [] >>= Stack.finish) =
        (e.encodeDimension lookup).mapError .encoding) ∧
      (∀ lookup kind e, (Expr.visitValue lookup kind e [] >>= Stack.finish) =
          (e.encodeValue lookup kind).mapError .encoding ∧
        ∀ t, e.encodeValue lookup kind ≠ .error (.addsDimensions t)) ∧
      Elaborate.StaysInRange options m.beginLate (Declarations.read options.source text).2
        (Declarations.read options.source text).1.units ∧
      m.InRange ∧ ((∃ c, m.extend text options = .ok c) ↔ m.HasRoomFor text options) ∧
      (∀ e, m.extend text options = .error e → e = .familyOverflow) ∧
      ∀ c, m.extend text options = .ok c → c.model.InRange := by
  have hproducts := Declarations.read_isProduct options.source text
  refine ⟨fun d hd => ⟨hproducts d hd, ?_⟩, Expr.finish_visitDimension, fun lookup kind e => ?_,
    ?_, hm.inRange, m.exists_extend_iff text options, fun e he => ?_, fun c => hm.inRange.extend⟩
  · exact Elaborate.encodeUnit_ne_internal (hproducts d hd)
  · exact ⟨Expr.finish_visitValue lookup kind e, Expr.encodeValue_ne_addsDimensions lookup kind e⟩
  · exact Elaborate.staysInRange options _ rfl hproducts
  · exact familyOverflow_of_extend he

end Extend

/-- Feet once more, a unit without a name, two units that wait for each other, and depths in one
of them. -/
def brokenLengths : String :=
  "unit Foot \"ft\" = 0.3 * Meter; unit = ; unit Hen \"h\" = Egg; unit Egg \"e\" = 2 * Hen;
   scale Depth Sea = 1 from Egg;"

/-- The feet are removed, and the depths follow their unit, though neither has a meaning. -/
theorem Produced.extend_succeeds_brokenLengths :
    ∃ c d, compile lengths { kind := .decimal } = .ok c ∧ c.model.Produced ∧
      c.model.extend brokenLengths { kind := .decimal, redeclaration := .sameUnit } = .ok d ∧
      d.isSuccess = false ∧
      d.model.units.map (fun u => (u.name, u.valid)) =
        [("Meter", true), ("Foot", true), ("Hen", false), ("Egg", false)] ∧
      d.model.scales.map (fun s => (s.unit, s.valid)) = [(some 0, true), (some 3, false)] ∧
      d.model.InRange := by
  obtain ⟨c, hc, d, hd, hsuccess, hunits, hscales⟩ :
      ∃ c, compile lengths { kind := .decimal } = .ok c ∧
        ∃ d, c.model.extend brokenLengths { kind := .decimal, redeclaration := .sameUnit } = .ok d ∧
          d.isSuccess = false ∧
          d.model.units.map (fun u => (u.name, u.valid)) =
            [("Meter", true), ("Foot", true), ("Hen", false), ("Egg", false)] ∧
          d.model.scales.map (fun s => (s.unit, s.valid)) = [(some 0, true), (some 3, false)] := by
    decide +kernel
  have hproduced : c.model.Produced := .extended .empty hc
  obtain ⟨-, -, -, -, -, -, -, hrange⟩ := hproduced.extend_succeeds brokenLengths
    { kind := .decimal, redeclaration := .sameUnit }
  exact ⟨c, d, hc, hproduced, hd, hsuccess, hunits, hscales, hrange d hd⟩

end Model

end Quantity
