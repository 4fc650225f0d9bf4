import Quantity.Proofs.Expr.Finite
import Quantity.Proofs.Model.Exposed
import Quantity.Proofs.Model.Kinds

/-!
# The numbers of a model

Factors, relative factors and offsets are finite numbers, each of the kind of its unit, though the
units of a family may be of different kinds. `SoundNumbers` says so of a whole model, and that
operations are between operands of one kind. It holds of every model that comes about from finite
numbers (`ProducedFrom.soundNumbers`), whatever the texts say: a declaration that fails leaves a
unit with the factor one behind.
-/

namespace Quantity

open List

/-- **The numbers of a unit** are finite numbers of its kind. -/
structure UnitEntry.HasNumbers (u : UnitEntry) : Prop where
  factor : u.factor.value.IsOf u.kind
  relativeFactor : ∀ x, u.relativeFactor = some x → x.value.IsOf u.kind

/-- The offset of a scale is a finite number of the kind of its unit. -/
def ScaleEntry.HasOffset (units : List UnitEntry) (s : ScaleEntry) : Prop :=
  ∃ i u, s.unit = some i ∧ units[i]? = some u ∧ s.offset.value.IsOf u.kind

theorem ScaleEntry.HasOffset.congr {s s' : ScaleEntry} (h : s.HasOffset units)
    (hunits : units.map (·.kind) = units'.map (·.kind)) (hunit : s.unit = s'.unit)
    (hoffset : s.offset = s'.offset) : s'.HasOffset units' := by
  obtain ⟨i, u, hi, hu, hof⟩ := h
  obtain ⟨v, hv, hkind⟩ := Model.exists_getElem?_of_map_eq hunits hu
  exact ⟨i, v, hunit ▸ hi, hv, hoffset ▸ hkind ▸ hof⟩

namespace Elaborate

variable {options : Options} {m : Model} {us : List UnitDecl} {p q r : Progress} {todo : Todo}

/-! ### One declaration -/

theorem exists_of_lookup {s : Scope} (h : s.lookup name = .resolved x) :
    ∃ u ∈ s.units, x = u.summary := by
  unfold Scope.lookup at h
  split at h
  · cases h
  · split at h
    · rename_i hu
      cases h
      exact ⟨_, mem_of_getElem? hu, rfl⟩
    · cases h
    · cases h

theorem isOf_of_lookup {s : Scope} (hs : ∀ u ∈ s.units, u.HasNumbers)
    (h : s.lookup name = .resolved x) : x.factor.IsOf x.kind := by
  obtain ⟨u, hu, rfl⟩ := exists_of_lookup h
  exact (hs u hu).factor

theorem isOf_of_encodeUnit (hs : ∀ u ∈ s.units, u.HasNumbers) (h : encodeUnit s kind d = .ok e) :
    e.factor.value.IsOf kind := by
  obtain ⟨hmain, -⟩ := encodeDefinition_of_encodeUnit h
  exact Expr.isOf_encodeValue (fun name x => isOf_of_lookup hs)
    (encodeDefinition_eq_ok_iff.mp hmain).2

theorem hasNumbers_fresh (options : Options) (d : UnitDecl) (redeclared : Bool) :
    (fresh options d redeclared).HasNumbers where
  factor := NumericKind.isOf_one _
  relativeFactor := nofun

/-- A scale with a meaning has an offset of the kind of its unit. -/
theorem IsScaleOf.hasOffset (hs : ∀ u ∈ s.units, u.HasNumbers) (h : IsScaleOf options s d t)
    (hvalid : t.valid = true) : t.HasOffset s.units := by
  rcases h with rfl | h
  · cases hvalid
  · obtain ⟨i, u, offset, hi, -, hu, hoffset, rfl⟩ := encodeScale_eq_ok_iff.mp h
    exact ⟨i, u, hi, hu, Expr.isOf_encodeValue (fun name x => isOf_of_lookup hs) hoffset⟩

/-! ### All declarations -/

/-- The unit that settles has the numbers of its kind, and the others stay as they are. -/
theorem Settles.hasNumbers (h : Settles options i d p q)
    (hkind : p.units[i]?.map (·.kind) = some (d.kind.getD options.kind))
    (hp : ∀ u ∈ p.units, u.HasNumbers) : ∀ u ∈ q.units, u.HasNumbers := by
  cases h with
  | fail _ _ => exact hp
  | @finish e _ he =>
    intro u hu
    obtain ⟨j, hj⟩ := mem_iff_getElem?.mp hu
    by_cases hij : i = j
    · subst hij
      have hj : (p.units.modify i (complete options d e))[i]? = some u := hj
      simp only [getElem?_modify, Option.map_eq_map, Option.map_eq_some_iff] at hj
      obtain ⟨v, hv, rfl⟩ := hj
      rw [hv, Option.map_some, Option.some.injEq] at hkind
      refine ⟨?_, (hp v (mem_of_getElem? hv)).relativeFactor⟩
      show e.factor.value.IsOf v.kind
      rw [hkind]
      exact isOf_of_encodeUnit hp he
    · have hj : (p.units.modify i (complete options d e))[j]? = some u := hj
      rw [getElem?_modify_ne _ _ hij] at hj
      exact hp u (mem_of_getElem? hj)

theorem Run.hasNumbers {todo : List (Nat × UnitDecl)} (h : Run options todo p q)
    (hkind : ∀ i d, (i, d) ∈ todo → p.units[i]?.map (·.kind) = some (d.kind.getD options.kind))
    (hp : ∀ u ∈ p.units, u.HasNumbers) : ∀ u ∈ q.units, u.HasNumbers := by
  induction h with
  | refl => exact hp
  | tail hrun hstep ih =>
    obtain ⟨i, d, hmem, hstep⟩ := hstep
    refine hstep.hasNumbers ?_ ih
    -- kinds do not change on the way
    rw [Advances.kind (Run.advances hrun) i]
    exact hkind i d hmem

theorem Declared.hasNumbers (h : Declared options m us p todo)
    (hm : ∀ u ∈ m.units, u.HasNumbers) : ∀ u ∈ p.units, u.HasNumbers := by
  intro u hu
  obtain ⟨i, hi⟩ := mem_iff_getElem?.mp hu
  by_cases hlt : i < m.units.length
  · rw [h.early_unit i hlt] at hi
    exact hm u (mem_of_getElem? hi)
  · obtain ⟨k, rfl⟩ := Nat.exists_eq_add_of_le (Nat.le_of_not_lt hlt)
    have hk := lt_of_getElem? hi
    rw [h.length_units] at hk
    obtain ⟨redeclared, hfresh⟩ :=
      h.late_unit k _ (getElem?_eq_getElem (Nat.lt_of_add_lt_add_left hk))
    cases hi.symm.trans hfresh
    exact hasNumbers_fresh ..

/-- **Late units have the numbers of their kinds**, with a meaning or without. -/
theorem Stages.hasNumbers (h : Stages options m us q todo s retired r)
    (hm : ∀ u ∈ m.units, u.HasNumbers) : ∀ u ∈ r.units, u.HasNumbers := by
  have hq : ∀ u ∈ q.units, u.HasNumbers := by
    obtain ⟨p, r', deferred, hd, hstuck, rfl⟩ := h.passes
    rw [units_giveUp]
    exact hstuck.run.hasNumbers hd.ready.kind (hd.hasNumbers hm)
  intro u hu
  obtain ⟨k, hk⟩ := mem_iff_getElem?.mp hu
  by_cases hlt : k < m.units.length
  · rw [h.early hlt] at hk
    exact hm u (mem_of_getElem? hk)
  · obtain ⟨d, -, redeclared, rfl | ⟨e, valid, he, rfl⟩⟩ := h.late_cases (Nat.le_of_not_lt hlt) hk
    · exact hasNumbers_fresh ..
    · exact ⟨isOf_of_encodeUnit hq he, nofun⟩

end Elaborate

/-- All numbers of the catalog are finite. -/
def Catalog.IsFinite (c : Catalog) : Prop :=
  (∀ u ∈ c.units, u.factor.isFinite = true) ∧ ∀ s ∈ c.scales, s.offset.isFinite = true

namespace Model

/-! ### Relative factors -/

/-- A relative factor is of the kind of its own unit, whatever the kind of the prime. -/
theorem isOf_of_relativeFactor (hu : u.HasNumbers) (h : relativeFactor u prime = .ok x) :
    x.value.IsOf u.kind := by
  obtain ⟨base, -, h⟩ := bind_eq_ok_iff.mp h
  obtain ⟨value, hvalue, h⟩ := bind_eq_ok_iff.mp h
  cases h
  exact hu.factor.1 ▸ (@Arith.isOf_of_apply .quotient _ _ _ hvalue).1

theorem hasNumbers_linkUnit {units : List UnitEntry} (hu : units[i]? = some u) (h : u.HasNumbers) :
    (linkUnit units u i).HasNumbers := by
  cases hf : validFamily u with
  | none =>
    rw [linkUnit_of_none hf]
    exact h
  | some f =>
    rw [linkUnit_of_some hf]
    refine ⟨h.factor, fun x hx => ?_⟩
    obtain ⟨value, hvalue, hx⟩ := Option.bind_eq_some_iff.mp hx
    obtain ⟨first, -, hvalue⟩ := Option.bind_eq_some_iff.mp hvalue
    obtain ⟨v, hv, hvalue⟩ := Option.bind_eq_some_iff.mp hvalue
    obtain ⟨prime, -, hvalue⟩ := Option.bind_eq_some_iff.mp hvalue
    cases Option.some.inj (hu.symm.trans hv)
    split_ifs at hvalue
    cases hvalue
    show x.value.IsOf u.kind
    exact isOf_of_relativeFactor h (toOption_eq_some_iff.mp hx)

theorem hasNumbers_connected (e : Model) {units : List UnitEntry} (scales : List ScaleEntry)
    (h : ∀ u ∈ units, u.HasNumbers) :
    ∀ u ∈ (e.connected units scales).resolveOperations.units, u.HasNumbers := by
  intro u hu
  obtain ⟨i, hi⟩ := mem_iff_getElem?.mp hu
  simp only [connected, resolveOperations, getElem?_mapIdx, Option.map_map,
    Option.map_eq_some_iff] at hi
  obtain ⟨v, hv, rfl⟩ := hi
  have hlinked := hasNumbers_linkUnit hv (h v (mem_of_getElem? hv))
  exact ⟨hlinked.factor, hlinked.relativeFactor⟩

/-! ### Models -/

/-- **The numbers of a model are sound**: those of units are finite numbers of their kinds, offsets
of scales with a meaning are finite numbers of the kinds of their units, and operations are between
operands of one kind. -/
structure SoundNumbers (m : Model) : Prop where
  units : ∀ u ∈ m.units, u.HasNumbers
  scales : ∀ s ∈ m.scales, s.valid = true → s.HasOffset m.units
  operations : ∀ o ∈ m.operations, ∃ kind, ∀ x ∈ o.operands, IsOfKind m.units kind x

theorem IsOfKind.congr {units units' : List UnitEntry} (h : IsOfKind units kind x)
    (hunits : units.map (·.kind) = units'.map (·.kind)) : IsOfKind units' kind x := by
  cases x with
  | unit i =>
    obtain ⟨u, hu, hkind⟩ := h
    obtain ⟨v, hv, heq⟩ := exists_getElem?_of_map_eq hunits hu
    exact ⟨v, hv, heq.trans hkind⟩
  | number k => exact h

theorem soundNumbers_empty : SoundNumbers {} where
  units := by simp
  scales := by simp
  operations := by simp

theorem SoundNumbers.settle {m : Model} (h : m.SoundNumbers) (module : String) :
    (m.settle module).SoundNumbers := by
  have hkinds : m.units.map (·.kind) = (m.settle module).units.map (·.kind) := by
    simp [Model.settle]
  constructor
  case units =>
    intro u hu
    obtain ⟨v, hv, rfl⟩ := mem_map.mp hu
    exact ⟨(h.units v hv).factor, (h.units v hv).relativeFactor⟩
  case scales =>
    intro s hs hvalid
    obtain ⟨t, ht, rfl⟩ := mem_map.mp hs
    exact (h.scales t ht hvalid).congr hkinds rfl rfl
  case operations =>
    intro o ho
    obtain ⟨kind, hkind⟩ := h.operations o ho
    exact ⟨kind, fun x hx => (hkind x hx).congr hkinds⟩

/-- **A catalog of finite numbers has sound numbers once it is restored.** -/
theorem soundNumbers_restored {c : Catalog} (hc : c.IsFinite) (h : c.restore = .ok m) :
    m.SoundNumbers := by
  obtain ⟨hunits, hscales⟩ := c.restore_ok_iff.mp ⟨m, h⟩
  rw [Catalog.restore_eq_ok h]
  constructor
  case units =>
    intro u hu
    obtain ⟨d, hd, rfl⟩ := mem_map.mp hu
    exact ⟨⟨(hunits d hd).1, hc.1 d hd⟩, nofun⟩
  case scales =>
    intro s hs _
    obtain ⟨d, hd, rfl⟩ := mem_map.mp hs
    obtain ⟨u, hu, hkind⟩ := hscales d hd
    rw [find?_reverse_eq] at hu
    obtain ⟨i, hi, hu⟩ := Option.bind_eq_some_iff.mp hu
    refine ⟨i, u.entry, hi, ?_, hkind, hc.2 d hd⟩
    simp [Catalog.restored, hu]
  case operations => exact fun o ho => absurd ho not_mem_nil

section Extend

variable {m : Model} {text : String} {options : Options} {c : Compilation}

/-- **Numbers stay sound**, whatever the text says. -/
theorem SoundNumbers.extend (h : m.SoundNumbers) (hc : m.extend text options = .ok c) :
    c.model.SoundNumbers := by
  obtain ⟨e, ds, us, ss, he, -, -, hmodel⟩ := exists_extended hc
  obtain ⟨p, q, todo, s, retired, added, -, hstages, hunits, hscales, -, hadded⟩ :=
    Elaborate.exists_stages_of_elaborate rfl he
  have hnumbers : ∀ u ∈ p.units, u.HasNumbers := hstages.hasNumbers h.units
  -- families and connections change no kind, no factor and no offset
  have hbare := map_bare_units e options.firstFamily
  have hbare' := map_bare_scales e options.firstFamily
  rw [← hmodel] at hbare hbare'
  have hkinds : p.units.map (·.kind) = c.model.units.map (·.kind) := by
    have hmap := congrArg (List.map UnitEntry.kind) hbare
    rw [map_map, map_map, hunits] at hmap
    exact hmap.symm
  constructor
  case units =>
    rw [hmodel]
    refine hasNumbers_connected e _ fun u hu => ?_
    have hnumbered : (e.numberedUnits options.firstFamily).map
        (fun u => (u.kind, u.factor, u.relativeFactor)) =
          e.units.map fun u => (u.kind, u.factor, u.relativeFactor) := by
      refine map_fill ?_ _ _
      exact fun _ _ => rfl
    obtain ⟨v, hv, heq⟩ := exists_mem_of_map_eq hnumbered hu
    simp only [Prod.mk.injEq] at heq
    obtain ⟨hkind, hfactor, hrelative⟩ := heq
    have hv := hnumbers v (hunits ▸ hv)
    exact ⟨hkind ▸ hfactor ▸ hv.factor, hkind ▸ hrelative ▸ hv.relativeFactor⟩
  case scales =>
    intro t ht hvalid
    obtain ⟨t', ht', heq⟩ := exists_mem_of_map_eq hbare' ht
    have hoffset : t'.bare.offset = t.bare.offset := congrArg ScaleEntry.offset heq
    obtain ⟨-, -, hvalid', hunit⟩ := ScaleEntry.eq_of_bare_eq heq
    refine ScaleEntry.HasOffset.congr ?_ hkinds hunit hoffset
    rw [hscales] at ht'
    rcases mem_append.mp ht' with ht' | ht'
    · obtain ⟨i, u, hi, hu, hof⟩ := h.scales t' ht' (hvalid'.trans hvalid)
      refine ⟨i, u, hi, ?_, hof⟩
      exact (hstages.early (lt_of_getElem? hu)).trans hu
    · obtain ⟨d, -, hd⟩ := Elaborate.exists_isScaleOf hadded ht'
      exact hd.hasOffset hnumbers (hvalid'.trans hvalid)
  case operations =>
    intro o ho
    have hlinked : c.model.Linked := hmodel ▸ linked_resolved _ _ _
    rw [← hlinked.operationTable_eq, mem_operationTable] at ho
    obtain ⟨kind, -, -, hl, hr, hresult⟩ := ho.exists_kind
    refine ⟨kind, fun x hx => ?_⟩
    simp only [Operation.operands, mem_cons, not_mem_nil, or_false] at hx
    rcases hx with rfl | rfl | rfl
    · exact hl
    · exact hr
    · exact hresult

end Extend

/-! ### After any number of texts -/

/-- Models that come about from those at the start, with any texts and any options. -/
inductive ProducedFrom (start : Model → Prop) : Model → Prop
  | start {m : Model} (h : start m) : ProducedFrom start m
  | settled {m : Model} (h : ProducedFrom start m) (module : String) :
      ProducedFrom start (m.settle module)
  | extended {m : Model} {text : String} {options : Options} {c : Compilation}
      (h : ProducedFrom start m) (hc : m.extend text options = .ok c) : ProducedFrom start c.model

/-- The empty model, or that of a catalog of finite numbers. -/
def IsFiniteStart (m : Model) : Prop := m = {} ∨ ∃ c : Catalog, c.IsFinite ∧ c.restore = .ok m

/-- **Every model that comes about from finite numbers has sound numbers.** -/
theorem ProducedFrom.soundNumbers {m : Model} (h : m.ProducedFrom IsFiniteStart) :
    m.SoundNumbers := by
  induction h with
  | start h =>
    rcases h with rfl | ⟨c, hc, h⟩
    · exact soundNumbers_empty
    · exact soundNumbers_restored hc h
  | settled _ module ih => exact ih.settle module
  | extended _ hc ih => exact ih.extend hc

def decimalMeters : Catalog :=
  { units :=
      [{ name := "Meter"
         module := "core"
         kind := .decimal
         dimension := .basic .length
         factor := .decimal .one
         format := ""
         tags := ["m"]
         family := 5 }]
    modules := ["core"] }

/-- Paces in double precision with a scale, and two units that wait for each other. -/
def binaryPaces : String :=
  "unit <double> Pace \"p\" = 3 * <Length>; scale Depth = -1 from Pace;
   unit Hen \"h\" = Egg; unit Egg \"e\" = 2 * Hen;"

/-- Paces are in the family of meters, and have a factor of their own kind relative to them. -/
theorem ProducedFrom.soundNumbers_binaryPaces :
    ∃ m c, decimalMeters.IsFinite ∧ decimalMeters.restore = .ok m ∧
      m.extend binaryPaces { kind := .decimal } = .ok c ∧
      c.model.units.map (fun u => (u.kind, u.family, u.relativeFactor.map (·.value.kind))) =
        [(.decimal, some 5, none), (.double, some 5, some .double), (.decimal, none, none),
          (.decimal, none, none)] ∧
      c.model.scales.map (·.offset.value.kind) = [.double] ∧ c.model.SoundNumbers := by
  have hfinite : decimalMeters.IsFinite := ⟨by decide, by decide⟩
  obtain ⟨m, hm, c, hc, hunits, hscales⟩ : ∃ m, decimalMeters.restore = .ok m ∧
      ∃ c, m.extend binaryPaces { kind := .decimal } = .ok c ∧
        c.model.units.map (fun u => (u.kind, u.family, u.relativeFactor.map (·.value.kind))) =
          [(.decimal, some 5, none), (.double, some 5, some .double), (.decimal, none, none),
            (.decimal, none, none)] ∧
        c.model.scales.map (·.offset.value.kind) = [.double] := by
    decide +kernel
  have hproduced : c.model.ProducedFrom IsFiniteStart :=
    .extended (.start (.inr ⟨_, hfinite, hm⟩)) hc
  exact ⟨m, c, hfinite, hm, hc, hunits, hscales, hproduced.soundNumbers⟩

end Model

end Quantity
