import Mathlib.Data.List.Perm.Subperm
import Quantity.Proofs.Model.Enlarged
import Quantity.Proofs.Model.Faults
import Quantity.Proofs.Model.Relations

/-!
# All reports about the meaning of a text

A text that is added to a model can leave late units and late scales without a meaning, and units
that cannot be related to the prime of their family. `extend_reports` says that these are the
faults that are reported, each of them once and nothing else, and what can be relied on if nothing
is reported.
-/

namespace Quantity

open List

/-- What can be wrong with the meaning of the entries of a model, by their places. -/
inductive Fault where
  /-- A late unit has no meaning. -/
  | unit (place : Nat)
  /-- A late scale has no meaning. -/
  | scale (place : Nat)
  /-- A unit cannot be related to the prime of its family. -/
  | relation (place : Nat)
  deriving DecidableEq, Repr

namespace Fault

/-- The model has the fault, once the text is added to the entries it had before. -/
def Occurs (m c : Model) : Fault → Prop
  | unit i => m.units.length ≤ i ∧ ∃ u, c.units[i]? = some u ∧ u.valid = false
  | scale i => m.scales.length ≤ i ∧ ∃ s, c.scales[i]? = some s ∧ s.valid = false
  | relation i => ∃ u, c.units[i]? = some u ∧ u.valid = true ∧ u.prime.isSome = true ∧
      u.relativeFactor = none

/-- The diagnostic is about the fault: about the declaration of the entry, or about the unit and
its prime. -/
def Explains (decls : Declarations) (source : Option String) (c : Model) (why : Diagnostic) :
    Fault → Prop
  | unit i => ∃ d ∈ decls.units, (∃ u, c.units[i]? = some u ∧ Elaborate.IsUnitOf d u) ∧
      why.IsAbout source d.places
  | scale i => ∃ d ∈ decls.scales, (∃ s, c.scales[i]? = some s ∧ Elaborate.IsScaleFor d s) ∧
      why.IsAbout source d.places
  | relation i => ∃ u j prime e, c.units[i]? = some u ∧ u.prime = some j ∧
      c.units[j]? = some prime ∧ Model.relativeFactor u prime = .error e ∧
      why = { Model.relationReport u prime e with source }

end Fault

namespace Model

open Elaborate

/-! ### Lists of reports -/

theorem items_pushAll (ds : Diagnostics) (more : List Diagnostic) :
    (ds.pushAll more).source = ds.source ∧
      (ds.pushAll more).items = ds.items ++ more.map (reported ds.source) := by
  induction more generalizing ds with
  | nil => exact ⟨rfl, (append_nil _).symm⟩
  | cons d more ih =>
    obtain ⟨hsource, hitems⟩ := ih (ds.push d)
    refine ⟨hsource, hitems.trans ?_⟩
    show (ds.items ++ [reported ds.source d]) ++ _ = _
    rw [List.append_assoc]
    rfl

theorem isAbout_reported {places : List Span} (h : why.IsAbout none places)
    (source : Option String) : (reported source why).IsAbout source places where
  severity := h.severity
  stage := h.stage
  source := by
    show why.source.or source = source
    rw [h.source]
    rfl
  span := h.span

/-! ### Faults of one sort -/

section Covers

variable {m c : Model} {decls : Declarations} {source : Option String} {label : Nat → Fault}
  {faults : List (Nat × Diagnostic)}

/-- **The list has all faults of a sort**, each once, with a report about it. -/
structure Covers (m c : Model) (decls : Declarations) (source : Option String)
    (label : Nat → Fault) (faults : List (Nat × Diagnostic)) : Prop where
  nodup : (faults.map (·.1)).Nodup
  occurs : ∀ i, i ∈ faults.map (·.1) ↔ (label i).Occurs m c
  explains : ∀ x ∈ faults, (label x.1).Explains decls source c (reported source x.2)

theorem covers_units (h : UnitReports m.units.length decls.units ds ds' c.units faults)
    (source : Option String) : Covers m c decls source .unit faults where
  nodup := h.ledger.nodup
  occurs := h.invalid
  explains x hx := by
    obtain ⟨d, hd, hunit, habout⟩ := h.tells x.1 x.2 hx
    exact ⟨d, hd, hunit, isAbout_reported habout source⟩

theorem covers_scales (h : ScaleReports m.scales.length decls.scales ds ds' c.scales faults)
    (source : Option String) : Covers m c decls source .scale faults where
  nodup := h.ledger.nodup
  occurs := h.invalid
  explains x hx := by
    obtain ⟨d, hd, hscale, habout⟩ := h.tells x.1 x.2 hx
    exact ⟨d, hd, hscale, isAbout_reported habout source⟩

theorem covers_relations (hc : c.Linked)
    (hfamily : ∀ u ∈ c.units, u.valid = true → u.family.isSome = true) :
    Covers m c decls source .relation (relationFaults c.units) where
  nodup := nodup_relationFaults c.units
  occurs i := by
    constructor
    · intro hplace
      obtain ⟨⟨i, why⟩, hmem, rfl⟩ := mem_map.mp hplace
      obtain ⟨u, j, prime, e, hu, hvalid, hj, hprime, he, -⟩ :=
        (mem_relationFaults_iff hc hfamily).mp hmem
      obtain ⟨prime', hprime', hfactor⟩ := hc.relativeFactor_eq hfamily hu hvalid hj
      rw [hprime] at hprime'
      cases hprime'
      refine ⟨u, hu, hvalid, by rw [hj]; rfl, ?_⟩
      rw [hfactor, he]
      rfl
    · rintro ⟨u, hu, hvalid, hsome, hnone⟩
      obtain ⟨j, hj⟩ := Option.isSome_iff_exists.mp hsome
      obtain ⟨prime, hprime, hfactor⟩ := hc.relativeFactor_eq hfamily hu hvalid hj
      rw [hnone] at hfactor
      cases he : relativeFactor u prime with
      | ok factor =>
        rw [he] at hfactor
        cases hfactor
      | error e =>
        exact mem_map.mpr ⟨(i, relationReport u prime e),
          (mem_relationFaults_iff hc hfamily).mpr ⟨u, j, prime, e, hu, hvalid, hj, hprime, he, rfl⟩,
          rfl⟩
  explains x hx := by
    obtain ⟨u, j, prime, e, hu, -, hj, hprime, he, hwhy⟩ :=
      (mem_relationFaults_iff hc hfamily).mp hx
    refine ⟨u, j, prime, e, hu, hj, hprime, he, ?_⟩
    rw [hwhy]
    rfl

/-- A report about a fault is an error about the meaning of entries. -/
theorem isError_of_explains {f : Fault} (h : f.Explains decls source c why) :
    why.stage = .semantic ∧ why.isError = true := by
  cases f with
  | unit i =>
    obtain ⟨_, -, -, habout⟩ := h
    exact ⟨habout.stage, decide_eq_true habout.severity⟩
  | scale i =>
    obtain ⟨_, -, -, habout⟩ := h
    exact ⟨habout.stage, decide_eq_true habout.severity⟩
  | relation i =>
    obtain ⟨_, _, _, _, -, -, -, -, rfl⟩ := h
    exact ⟨rfl, rfl⟩

/-- The faults of a sort, as they are reported. -/
def ofSort (label : Nat → Fault) (source : Option String) (faults : List (Nat × Diagnostic)) :
    List (Fault × Diagnostic) :=
  faults.map fun x => (label x.1, reported source x.2)

theorem Covers.mem_ofSort (h : Covers m c decls source label faults) (f : Fault) :
    f ∈ (ofSort label source faults).map (·.1) ↔ ∃ i, label i = f ∧ f.Occurs m c := by
  unfold ofSort
  rw [map_map]
  constructor
  · intro hf
    obtain ⟨x, hx, rfl⟩ := mem_map.mp hf
    exact ⟨x.1, rfl, (h.occurs x.1).mp (mem_map_of_mem hx)⟩
  · rintro ⟨i, rfl, hf⟩
    obtain ⟨x, hx, rfl⟩ := mem_map.mp ((h.occurs i).mpr hf)
    exact mem_map.mpr ⟨x, hx, rfl⟩

theorem Covers.explains_ofSort (h : Covers m c decls source label faults) :
    ∀ x ∈ ofSort label source faults, x.1.Explains decls source c x.2 := by
  intro x hx
  obtain ⟨y, hy, rfl⟩ := mem_map.mp hx
  exact h.explains y hy

theorem Covers.nodup_ofSort (h : Covers m c decls source label faults)
    (hlabel : Function.Injective label) : ((ofSort label source faults).map (·.1)).Nodup := by
  have hmap : (ofSort label source faults).map (·.1) = (faults.map (·.1)).map label := by
    unfold ofSort
    rw [map_map, map_map]
    rfl
  rw [hmap]
  exact h.nodup.map hlabel

end Covers

/-! ### All of them -/

/-- Whatever the model was, units with a meaning are in families once a text is added, and
entries are connected. -/
theorem linked_extend {m : Model} (hc : m.extend text options = .ok c) :
    c.model.Linked ∧ ∀ u ∈ c.model.units, u.valid = true → u.family.isSome = true := by
  obtain ⟨e, _, _, _, -, -, -, hmodel⟩ := exists_extended hc
  rw [hmodel]
  refine ⟨linked_resolved _ _ _, fun u hu hvalid => ?_⟩
  obtain ⟨v, hv, heq⟩ := exists_mem_of_map_eq (map_unlinked_units e _ _) hu
  obtain ⟨hfamily, hvalid', -⟩ := UnitEntry.eq_of_unlinked_eq heq
  rw [← hfamily]
  exact isSome_family_of_mem_numberedUnits hv (hvalid'.trans hvalid)

/-- The reports of a text: those about its units, and then those about its scales. -/
theorem exists_reports_of_elaborate {m e : Model}
    (he : elaborate options m.beginLate ds decls = .ok (e, ds')) :
    ∃ between units scales,
      UnitReports m.units.length decls.units ds between e.units units ∧
      ScaleReports m.scales.length decls.scales between ds' e.scales scales := by
  obtain ⟨p, hp, -⟩ := bind_eq_ok_iff.mp he
  obtain ⟨units, hunits⟩ := exists_unitReports rfl hp
  have hstart : ScaleReports m.scales.length decls.scales p.diagnostics p.diagnostics m.scales [] := by
    refine ⟨ledger_nil _, fun i => ⟨nofun, ?_⟩, nofun⟩
    rintro ⟨hi, t, ht, -⟩
    rw [getElem?_eq_none hi] at ht
    cases ht
  obtain ⟨scales, hscales⟩ := scaleReports_declareScales options m.beginLate.lateUnits
    m.beginLate.lateScales p.toScope (x := ⟨m.scales, scaleNames m.beginLate, p.diagnostics⟩)
    (Nat.le_refl _) hstart (List.Subset.refl _)
  rw [elaborate_eq hp] at he
  obtain ⟨rfl, rfl⟩ := he
  exact ⟨_, units, scales, hunits, hscales⟩

/-- **What is reported about a text**: first its form, then its units, its scales, and the units
that cannot be related to their primes. -/
theorem exists_covers {m : Model} (hc : m.extend text options = .ok c) :
    ∃ units scales,
      c.diagnostics.items = (Declarations.read options.source text).2.items ++
        (ofSort .unit options.source units ++ ofSort .scale options.source scales ++
          ofSort .relation options.source (relationFaults c.model.units)).map (·.2) ∧
      Covers m c.model (Declarations.read options.source text).1 options.source .unit units ∧
      Covers m c.model (Declarations.read options.source text).1 options.source .scale scales ∧
      Covers m c.model (Declarations.read options.source text).1 options.source .relation
        (relationFaults c.model.units) := by
  have hsource := (Declarations.read_isSyntactic options.source text).source
  obtain ⟨hlinked, hfamily⟩ := linked_extend hc
  obtain ⟨e, ds, he, -, rfl⟩ := exists_finished hc
  obtain ⟨between, units, scales, hunits, hscales⟩ := exists_reports_of_elaborate he
  have hunits' := hunits.congr (e.map_bare_units options.firstFamily)
    (fun _ _ heq => (UnitEntry.eq_of_bare_eq heq).2.2.1) fun d u v heq hunit => by
      obtain ⟨hname, horigin, -⟩ := UnitEntry.eq_of_bare_eq heq
      exact ⟨hname.trans hunit.1, horigin.trans hunit.2⟩
  have hscales' := hscales.congr (e.map_bare_scales options.firstFamily)
    (fun _ _ heq => (ScaleEntry.eq_of_bare_eq heq).2.2.1) fun d s t heq hscale => by
      obtain ⟨hname, horigin, -⟩ := ScaleEntry.eq_of_bare_eq heq
      exact ⟨hname.trans hscale.1, horigin.trans hscale.2⟩
  refine ⟨units, scales, ?_, covers_units hunits' _, covers_scales hscales' _,
    covers_relations hlinked hfamily⟩
  have hrelations := relationErrors_congr
    (map_unlinked_units e (e.numberedUnits options.firstFamily)
      (e.numberedScales options.firstFamily))
  rw [finished, ← hrelations, (items_pushAll _ _).2, ← map_snd_relationFaults, hscales.ledger.items,
    hscales.ledger.source, hunits.ledger.items, hunits.ledger.source, hsource]
  simp only [ofSort, map_append, map_map, List.append_assoc]
  rfl

theorem exists_faults {m : Model} (hc : m.extend text options = .ok c) :
    ∃ faults : List (Fault × Diagnostic),
      c.diagnostics.items =
        (Declarations.read options.source text).2.items ++ faults.map (·.2) ∧
      (faults.map (·.1)).Nodup ∧ (∀ f, f ∈ faults.map (·.1) ↔ f.Occurs m c.model) ∧
      ∀ x ∈ faults, x.1.Explains (Declarations.read options.source text).1 options.source
        c.model x.2 := by
  obtain ⟨units, scales, hitems, hunits, hscales, hrelations⟩ := exists_covers hc
  refine ⟨_, hitems, ?_, fun f => ?_, fun x hx => ?_⟩
  · rw [map_append, map_append]
    refine nodup_append.mpr ⟨nodup_append.mpr ⟨?_, ?_, ?_⟩, ?_, ?_⟩
    · exact hunits.nodup_ofSort fun _ _ h => Fault.unit.inj h
    · exact hscales.nodup_ofSort fun _ _ h => Fault.scale.inj h
    · intro f hf g hg heq
      obtain ⟨i, rfl, -⟩ := (hunits.mem_ofSort f).mp hf
      obtain ⟨j, rfl, -⟩ := (hscales.mem_ofSort g).mp hg
      cases heq
    · exact hrelations.nodup_ofSort fun _ _ h => Fault.relation.inj h
    · intro f hf g hg heq
      obtain ⟨j, rfl, -⟩ := (hrelations.mem_ofSort g).mp hg
      rcases mem_append.mp hf with hf | hf
      · obtain ⟨i, rfl, -⟩ := (hunits.mem_ofSort f).mp hf
        cases heq
      · obtain ⟨i, rfl, -⟩ := (hscales.mem_ofSort f).mp hf
        cases heq
  · rw [map_append, map_append, mem_append, mem_append, hunits.mem_ofSort,
      hscales.mem_ofSort, hrelations.mem_ofSort]
    cases f <;> simp
  · rcases mem_append.mp hx with hx | hx
    · rcases mem_append.mp hx with hx | hx
      · exact hunits.explains_ofSort x hx
      · exact hscales.explains_ofSort x hx
    · exact hrelations.explains_ofSort x hx

/-! ### Declarations and entries -/

/-- **Each declaration has its late entry**, in the order of the declarations, but for those that are
removed because they are aliases. -/
structure Entered (options : Options) (m c : Model) (decls : Declarations) (removed : List Nat) :
    Prop where
  aliases : ∀ k ∈ removed, ∃ d, decls.units[k]? = some d ∧ IsAlias options m d
  units : ((c.units.drop m.units.length).map fun u => (u.name, u.origin)) =
    (without removed decls.units).map fun d => (d.name, .declared d.span)
  scales : ((c.scales.drop m.scales.length).map fun s => (s.name, s.origin)) =
    decls.scales.map fun d => (d.name, .declared d.span)

theorem exists_entered {m : Model} (hc : m.extend text options = .ok c) :
    ∃ removed, Entered options m c.model (Declarations.read options.source text).1 removed := by
  obtain ⟨e, ds, he, -, rfl⟩ := exists_finished hc
  obtain ⟨p, q, todo, s, retired, added, -, hstages, hunits, hscales, -, hadded⟩ :=
    exists_stages_of_elaborate rfl he
  refine ⟨_, fun k => hstages.isAlias, ?_, ?_⟩
  · have hbare := congrArg (List.map fun u : UnitEntry => (u.name, u.origin))
      (e.map_bare_units options.firstFamily)
    rw [map_map, map_map, hunits] at hbare
    rw [map_drop]
    refine (congrArg _ (hbare.trans hstages.map_units)).trans ?_
    exact drop_left' (length_map _)
  · have hbare := congrArg (List.map fun s : ScaleEntry => (s.name, s.origin))
      (e.map_bare_scales options.firstFamily)
    rw [map_map, map_map, hscales, map_append] at hbare
    rw [map_drop]
    refine ((congrArg _ hbare).trans (drop_left' (length_map _))).trans ?_
    rw [← forall₂_eq_eq_eq, forall₂_map_left_iff, forall₂_map_right_iff]
    refine (hadded.imp fun d t ht => ?_).flip
    obtain ⟨-, -, hname, horigin⟩ := ht.unit_eq
    exact Prod.ext hname horigin

/-! ### All reports -/

theorem relativeFactor_eq_ok (h : relativeFactor u prime = .ok factor) :
    ∃ base, u.kind.convert prime.factor.value = .ok base ∧
      u.factor.value.div base = .ok factor.value := by
  obtain ⟨base, hbase, h⟩ := bind_eq_ok_iff.mp h
  obtain ⟨value, hvalue, h⟩ := bind_eq_ok_iff.mp h
  cases h
  exact ⟨base, hbase, hvalue⟩

/-- What is reported about the form of a text is told apart from its meaning. -/
theorem filter_semantic {ds more : List Diagnostic}
    (hds : ∀ d ∈ ds, d.stage = .lex ∨ d.stage = .parse) (hmore : ∀ d ∈ more, d.stage = .semantic) :
    (ds ++ more).filter (·.stage = .semantic) = more := by
  have hnone : ds.filter (·.stage = .semantic) = [] := by
    refine filter_eq_nil_iff.mpr fun d hd hstage => ?_
    rcases hds d hd with h | h <;> simp [h] at hstage
  rw [filter_append, hnone, nil_append, filter_eq_self]
  exact fun d hd => decide_eq_true (hmore d hd)

section Faultless

variable {m c : Model} (hno : ∀ f : Fault, ¬ f.Occurs m c)
include hno

theorem valid_of_faultless (hi : m.units.length ≤ i) (hu : c.units[i]? = some u) :
    u.valid = true := by
  cases hvalid : u.valid with
  | true => rfl
  | false => exact absurd ⟨hi, u, hu, hvalid⟩ (hno (.unit i))

theorem valid_scale_of_faultless (hi : m.scales.length ≤ i) (hs : c.scales[i]? = some s) :
    s.valid = true := by
  cases hvalid : s.valid with
  | true => rfl
  | false => exact absurd ⟨hi, s, hs, hvalid⟩ (hno (.scale i))

/-- Without faults every unit but the primes has a factor relative to its prime. -/
theorem exists_relativeFactor_of_faultless (hlinked : c.Linked)
    (hfamily : ∀ u ∈ c.units, u.valid = true → u.family.isSome = true) {i j : Nat}
    (hi : c.units[i]? = some u) (hvalid : u.valid = true) (hj : u.prime = some j) :
    ∃ prime base factor, c.units[j]? = some prime ∧
      u.kind.convert prime.factor.value = .ok base ∧
      u.factor.value.div base = .ok factor.value ∧ u.relativeFactor = some factor := by
  obtain ⟨prime, hprime, hfactor⟩ := hlinked.relativeFactor_eq hfamily hi hvalid hj
  cases hresult : relativeFactor u prime with
  | error e =>
    refine absurd ⟨u, hi, hvalid, by rw [hj]; rfl, ?_⟩ (hno (.relation i))
    rw [hfactor, hresult]
    rfl
  | ok factor =>
    obtain ⟨base, hbase, hvalue⟩ := relativeFactor_eq_ok hresult
    refine ⟨prime, base, factor, hprime, hbase, hvalue, ?_⟩
    rw [hfactor, hresult]
    rfl

end Faultless

/-- **Every fault is reported, once, and nothing else is.** The errors about the meaning of a text
are those of the late units and late scales without a meaning, and of the units that cannot be
related to the prime of their family. Each declaration has its late entry, unless it is an alias. So
after a text without errors all late entries have a meaning, and every unit but the primes has a
factor relative to its prime. -/
theorem extend_reports (m : Model) (text : String) (options : Options) :
    ((∃ c, m.extend text options = .ok c) ↔ m.HasRoomFor text options) ∧
      ∀ c, m.extend text options = .ok c →
      (∃ faults : List (Fault × Diagnostic),
        c.diagnostics.items.filter (·.stage = .semantic) = faults.map (·.2) ∧
        (faults.map (·.1)).Nodup ∧ (∀ f, f ∈ faults.map (·.1) ↔ f.Occurs m c.model) ∧
        ∀ x ∈ faults, x.1.Explains (Declarations.read options.source text).1 options.source
          c.model x.2) ∧
      (∃ removed, Entered options m c.model (Declarations.read options.source text).1 removed) ∧
      (c.isSuccess = true →
        (∀ u ∈ c.model.units.drop m.units.length, u.valid = true) ∧
        (∀ s ∈ c.model.scales.drop m.scales.length, s.valid = true) ∧
        ∀ u ∈ c.model.units, u.valid = true → ∀ j, u.prime = some j →
          ∃ prime base factor, c.model.units[j]? = some prime ∧
            u.kind.convert prime.factor.value = .ok base ∧
            u.factor.value.div base = .ok factor.value ∧ u.relativeFactor = some factor) := by
  refine ⟨m.exists_extend_iff text options, fun c hc => ?_⟩
  obtain ⟨faults, hitems, hnodup, hoccurs, hexplains⟩ := exists_faults hc
  obtain ⟨hlinked, hfamily⟩ := linked_extend hc
  refine ⟨⟨faults, ?_, hnodup, hoccurs, hexplains⟩, exists_entered hc, fun hsuccess => ?_⟩
  · rw [hitems]
    refine filter_semantic (Declarations.read_isSyntactic options.source text).stage ?_
    intro why hwhy
    obtain ⟨x, hx, rfl⟩ := mem_map.mp hwhy
    exact (isError_of_explains (hexplains x hx)).1
  · -- each fault would have been an error
    have hno (f : Fault) : ¬ f.Occurs m c.model := by
      intro hf
      obtain ⟨x, hx, rfl⟩ := mem_map.mp ((hoccurs f).mpr hf)
      have herror : c.diagnostics.hasErrors = true := by
        refine any_eq_true.mpr ⟨x.2, ?_, (isError_of_explains (hexplains x hx)).2⟩
        rw [hitems]
        exact mem_append_right _ (mem_map_of_mem hx)
      simp [Compilation.isSuccess, herror] at hsuccess
    refine ⟨fun u hu => ?_, fun s hs => ?_, fun u hu hvalid j hj => ?_⟩
    · obtain ⟨k, hk⟩ := mem_iff_getElem?.mp hu
      rw [getElem?_drop] at hk
      exact valid_of_faultless hno (Nat.le_add_right _ k) hk
    · obtain ⟨k, hk⟩ := mem_iff_getElem?.mp hs
      rw [getElem?_drop] at hk
      exact valid_scale_of_faultless hno (Nat.le_add_right _ k) hk
    · obtain ⟨i, hi⟩ := mem_iff_getElem?.mp hu
      exact exists_relativeFactor_of_faultless hno hlinked hfamily hi hvalid hj

/-- Meters that are known already, feet in yards that are not known, and heights in feet. -/
def metersFeetAndHeights : String :=
  "unit Meter \"m\" = <Length>; unit Foot \"ft\" = 0.3 * Yard; scale Height = 0 from Foot;"

/-- Meters are an alias and have no entry of their own. Feet and heights have one each, without a
meaning, and each of them is reported. -/
theorem extend_reports_metersFeetAndHeights :
    ∃ c d, compile "unit Meter \"m\" = <Length>;" { kind := .decimal } = .ok c ∧
      (c.model.settle "si").extend metersFeetAndHeights
        { kind := .decimal, redeclaration := .sameUnit } = .ok d ∧
      (d.model.units.drop 1).map (·.name) = ["Foot"] ∧ d.model.scales.map (·.name) = ["Height"] ∧
      ∃ faults : List (Fault × Diagnostic),
        d.diagnostics.items.filter (·.stage = .semantic) = faults.map (·.2) ∧
        (faults.map (·.1)).Perm [.unit 1, .scale 0] := by
  obtain ⟨c, hc, d, hd, hearly, hunits, hscales, hcount, hfoot, hheight⟩ :
      ∃ c, compile "unit Meter \"m\" = <Length>;" { kind := .decimal } = .ok c ∧
        ∃ d, (c.model.settle "si").extend metersFeetAndHeights
            { kind := .decimal, redeclaration := .sameUnit } = .ok d ∧
          ((c.model.settle "si").units.length, (c.model.settle "si").scales.length) = (1, 0) ∧
          (d.model.units.drop 1).map (·.name) = ["Foot"] ∧
          d.model.scales.map (·.name) = ["Height"] ∧
          (d.diagnostics.items.filter (·.stage = .semantic)).length = 2 ∧
          (d.model.units[1]?).map (·.valid) = some false ∧
          (d.model.scales[0]?).map (·.valid) = some false := by
    decide +kernel
  obtain ⟨-, hreports⟩ := extend_reports (c.model.settle "si") metersFeetAndHeights
    { kind := .decimal, redeclaration := .sameUnit }
  obtain ⟨⟨faults, hitems, hnodup, hoccurs, -⟩, -⟩ := hreports d hd
  obtain ⟨hone, hnone⟩ := Prod.mk.inj hearly
  have hunit : Fault.unit 1 ∈ faults.map (·.1) :=
    (hoccurs _).mpr ⟨hone.le, Option.map_eq_some_iff.mp hfoot⟩
  have hscale : Fault.scale 0 ∈ faults.map (·.1) :=
    (hoccurs _).mpr ⟨hnone.le, Option.map_eq_some_iff.mp hheight⟩
  refine ⟨c, d, hc, hd, hunits, hscales, faults, hitems, ?_⟩
  -- there are as many faults as reports, and these two are among them
  have hsubset : [Fault.unit 1, Fault.scale 0] ⊆ faults.map (·.1) := by
    simp only [cons_subset, nil_subset, and_true]
    exact ⟨hunit, hscale⟩
  refine ((subperm_of_subset (by decide) hsubset).perm_of_length_le ?_).symm
  rw [hitems, length_map] at hcount
  rw [length_map, hcount]
  exact Nat.le_refl _

end Model

end Quantity
