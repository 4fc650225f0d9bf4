import Quantity.Proofs.Model.InRange

/-!
# What a declaration with a meaning rests on

A unit gets a meaning only if all units it refers to have one. The units are compared with earlier
ones of their names only after that, so a unit can keep its meaning though one that it refers to
loses it, or makes way for an earlier unit that has none. `Stages.valid_iff` says that nothing
else can happen: `Exposed` are the names for which the policy lets it happen.
-/

namespace Quantity

open List

/-! ### Values -/

/-- An expression has a value only if all names it refers to lead to units. -/
theorem Expr.resolved_of_encodeValue {lookup : String → Lookup} {e : Expr}
    (h : e.encodeValue lookup kind = .ok n) :
    ∀ name ∈ e.references, ∃ u, lookup name = .resolved u := by
  replace h := hasValue_of_encodeValue h
  induction h with
  | number | literal | magnitude => simp [references]
  | reference hu => simp [references, hu]
  | positive _ ih | negative _ ih | paren _ ih => exact ih
  | arith _ _ _ ihl ihr => exact fun name hn => (mem_append.mp hn).elim (ihl name) (ihr name)

namespace Elaborate

variable {options : Options} {m : Model} {us : List UnitDecl} {p q r s : Progress} {todo : Todo}
  {retired : List Nat}

/-! ### Units -/

/-- A name leads to a unit without a meaning though something rests on it: it was declared again
where late units may stand for earlier ones, and the earlier unit has no meaning, or the late one
differs from it. -/
def Exposed (options : Options) (m : Model) (us : List UnitDecl) (name : String) (j : Nat)
    (v : UnitEntry) : Prop :=
  options.redeclaration = .sameUnit ∧ (∃ d ∈ us, d.name = name) ∧
    ∃ i early, m.findUnit? name = some i ∧ m.units[i]? = some early ∧
      (j = i ∧ early.valid = false ∨ m.units.length ≤ j ∧ agree v early = false)

section Stages

variable (h : Stages options m us q todo s retired r)

include h

theorem Stages.declared (hi : m.units.length ≤ i) (hu : q.units[i]? = some u) :
    ∃ d ∈ us, d.name = u.name := by
  obtain ⟨d, hd, redeclared, rfl | ⟨e, -, rfl⟩⟩ := h.passed_cases hi hu
  · exact ⟨d, hd, rfl⟩
  · exact ⟨d, hd, rfl⟩

/-- A name is not exposed if its unit has a meaning, stays, and does not clash with another one. -/
theorem Stages.not_exposed (hk : q.names.get? u.name = some k) (hu : q.units[k]? = some u)
    (hdone : q.states[k]? = some .done) (hstays : k ∉ retired)
    (hnone : ∀ i, (k, i) ∈ todo.aliases → ¬ Clashes q (k, i)) :
    ¬ Exposed options m us u.name (renumber retired k) u := by
  rintro ⟨hpolicy, -, i, early, hfound, hearly, ⟨hi, hinvalid⟩ | ⟨hle, -⟩⟩
  · -- the unit is the earlier one
    have hlt : k < m.units.length := by
      refine Nat.lt_of_not_le fun hle => ?_
      have := h.le_renumber.mpr hle
      have := Model.getLast?_places_lt hfound
      omega
    rw [renumber_of_lt (fun j => h.le_of_mem) hlt] at hi
    subst hi
    rw [h.early_passes hlt, hearly] at hu
    cases hu
    rw [h.valid_of_done ((h.early_passes hlt).trans hearly) hdone] at hinvalid
    cases hinvalid
  · -- the unit is late, so it was compared with the earlier one
    have hmem : (k, i) ∈ todo.aliases :=
      (h.tables.claims.mem k i).mpr ⟨hpolicy, h.le_renumber.mp hle, u.name, hk, hfound⟩
    have hearly' := (h.early_passes (Model.getLast?_places_lt hfound)).trans hearly
    have hstate : q.state k = .done := by
      rw [Scope.state, getD_eq_getElem?_getD, hdone]
      rfl
    cases hagree : agree u early with
    | true => exact hstays ((h.compared.mem k).mpr ⟨i, hmem, hstate, u, early, hu, hearly', hagree⟩)
    | false => exact hnone i hmem ⟨hstate, u, early, hu, hearly', hagree⟩

/-- **Where the passes found a meaning, there is one in the end, unless the name is exposed.** -/
theorem Stages.valid_iff (hk : q.names.get? name = some k) (hdone : q.states[k]? = some .done) :
    ∃ j v, r.names.get? name = some j ∧ r.units[j]? = some v ∧
      (v.valid = false ↔ Exposed options m us name j v) := by
  obtain ⟨u, hu, rfl⟩ := h.tables.named name k hk
  rcases h.leads hk with ⟨i, hmem, -, hfound, hi, hunit⟩ | ⟨hstays, hj, hunit⟩
  · -- the late unit has made way for the earlier one
    obtain ⟨hpolicy, hlate, -⟩ := (h.tables.claims.mem k i).mp hmem
    obtain ⟨early, hearly, -⟩ := Model.exists_of_findUnit? hfound
    refine ⟨i, early, hi, hunit.trans hearly, fun hinvalid => ?_, ?_⟩
    · exact ⟨hpolicy, h.declared hlate hu, i, early, hfound, hearly, .inl ⟨rfl, hinvalid⟩⟩
    · rintro ⟨-, -, i', early', hfound', hearly', ⟨-, hinvalid⟩ | ⟨hle, -⟩⟩
      · rw [hfound] at hfound'
        cases hfound'
        rw [hearly] at hearly'
        cases hearly'
        exact hinvalid
      · exact absurd (Model.getLast?_places_lt hfound) (Nat.not_lt.mpr hle)
  · refine ⟨renumber retired k, ?_⟩
    rcases h.compared.unit_cases hu with ⟨hnone, hs⟩ | ⟨i, hmem, hclash, hs⟩
    · -- nothing speaks against the unit
      refine ⟨u, hj, hunit.trans hs, ?_⟩
      rw [h.valid_of_done hu hdone]
      exact iff_of_false nofun (h.not_exposed hk hu hdone hstays hnone)
    · -- the unit differs from the earlier one
      refine ⟨_, hj, hunit.trans hs, fun _ => ?_, fun _ => rfl⟩
      obtain ⟨hpolicy, hlate, -⟩ := (h.tables.claims.mem k i).mp hmem
      have hfound := h.tables.comparable.known k i u hmem hu
      obtain ⟨-, late, early, hlate', hearly', hagree⟩ := hclash
      rw [hu] at hlate'
      cases hlate'
      rw [h.early_passes (Model.getLast?_places_lt hfound)] at hearly'
      exact ⟨hpolicy, h.declared hlate hu, i, early, hfound, hearly',
        .inr ⟨h.le_renumber.mpr hlate, hagree⟩⟩

/-- **A late unit with a meaning** comes from a declaration, and what this refers to has a meaning
unless it is exposed. -/
theorem Stages.rests (hi : m.units.length ≤ i) (hu : r.units[i]? = some u)
    (hvalid : u.valid = true) :
    ∃ d ∈ us, u.name = d.name ∧ u.origin = .declared d.span ∧
      ∀ name ∈ d.references, ∃ j v, r.names.get? name = some j ∧ r.units[j]? = some v ∧
        (v.valid = false ↔ Exposed options m us name j v) := by
  obtain ⟨d, hd, redeclared, rfl | ⟨e, valid, he, rfl⟩⟩ := h.late_cases hi hu
  · cases hvalid
  · refine ⟨d, hd, rfl, rfl, fun name hname => ?_⟩
    obtain ⟨x, hx⟩ := resolved_of_encodeUnit he name hname
    obtain ⟨k, hk, hdone⟩ := done_of_lookup hx
    exact h.valid_iff hk hdone

end Stages

/-! ### Scales -/

/-- A name that leads to something leads to a unit with a meaning. -/
theorem Behind.valid_of_lookup (h : Behind m p) (hnamed : p.Named)
    (hx : p.lookup name = .resolved x) :
    ∃ j v, p.names.get? name = some j ∧ p.units[j]? = some v ∧ v.valid = true := by
  obtain ⟨j, hj, hdone⟩ := done_of_lookup hx
  obtain ⟨v, hv, -⟩ := hnamed name j hj
  exact ⟨j, v, hj, hv, h.done j v hv hdone⟩

/-- **A scale with a meaning rests on units with a meaning**: it is encoded after the late units
were compared. -/
theorem Behind.rests (h : Behind m p) (hnamed : p.Named) (ht : IsScaleOf options p.toScope d t)
    (hvalid : t.valid = true) :
    ∀ name ∈ d.unit :: d.offset.references, ∃ j v, p.names.get? name = some j ∧
      p.units[j]? = some v ∧ v.valid = true := by
  have hunit := ht.unit_eq.1
  rcases ht with rfl | ht
  · cases hvalid
  · intro name hname
    rcases mem_cons.mp hname with rfl | hname
    · obtain ⟨j, v, hj, hv, hvalid⟩ := (h.isLate (.inr ht)).2 hvalid
      exact ⟨j, v, hunit.symm.trans hj, hv, hvalid⟩
    · obtain ⟨_, _, n, -, -, -, hn, -⟩ := encodeScale_eq_ok_iff.mp ht
      obtain ⟨x, hx⟩ := Expr.resolved_of_encodeValue hn name hname
      exact h.valid_of_lookup hnamed hx

end Elaborate

/-! ### All declarations -/

/-- The unit without its family and its connections. -/
def UnitEntry.bare (u : UnitEntry) : UnitEntry := { u.unlinked with family := none }

/-- The scale without its family and its connections. -/
def ScaleEntry.bare (s : ScaleEntry) : ScaleEntry := { s.unlinked with family := none }

theorem UnitEntry.eq_of_bare_eq (h : u.bare = v.bare) :
    u.name = v.name ∧ u.origin = v.origin ∧ u.valid = v.valid ∧
      ∀ w, Elaborate.agree u w = Elaborate.agree v w := by
  have hagree (w : UnitEntry) : Elaborate.agree u.bare w = Elaborate.agree v.bare w := by rw [h]
  unfold bare unlinked at h
  simp only [mk.injEq] at h
  exact ⟨h.1, h.2.1, by tauto, hagree⟩

theorem ScaleEntry.eq_of_bare_eq {s t : ScaleEntry} (h : s.bare = t.bare) :
    s.name = t.name ∧ s.origin = t.origin ∧ s.valid = t.valid ∧ s.unit = t.unit := by
  unfold bare unlinked at h
  simp only [mk.injEq] at h
  tauto

namespace Model

open Elaborate

variable (e : Model) (firstFamily : FamilyId)

/-- Families and connections are all that is added to units last. -/
theorem map_bare_units :
    (e.connected (e.numberedUnits firstFamily)
      (e.numberedScales firstFamily)).resolveOperations.units.map (·.bare) =
        e.units.map (·.bare) := by
  have hunlinked := congrArg (List.map fun u : UnitEntry => { u with family := none })
    (map_unlinked_units e (e.numberedUnits firstFamily) (e.numberedScales firstFamily))
  rw [map_map, map_map] at hunlinked
  refine hunlinked.trans (map_fill ?_ _ _)
  exact fun _ _ => rfl

theorem map_bare_scales :
    (e.connected (e.numberedUnits firstFamily)
      (e.numberedScales firstFamily)).resolveOperations.scales.map (·.bare) =
        e.scales.map (·.bare) := by
  have hunlinked := congrArg (List.map fun s : ScaleEntry => { s with family := none })
    (map_unlinked_scales e (e.numberedUnits firstFamily) (e.numberedScales firstFamily))
  rw [map_map, map_map] at hunlinked
  refine hunlinked.trans (map_fill ?_ _ _)
  exact fun _ _ => rfl

/-- **A declaration with a meaning rests on units with a meaning**, whatever the model and the
text, but for names that are exposed: a late unit refers to units with a meaning unless the
policy lets a late unit of the name stand for an earlier one, and it differs from it or the earlier
one has no meaning. A late scale always does. -/
theorem extend_rests (m : Model) (text : String) (options : Options) :
    ((∃ c, m.extend text options = .ok c) ↔ m.HasRoomFor text options) ∧
      ∀ c, m.extend text options = .ok c →
      ∃ p, elaborateUnits options m.beginLate (Declarations.read options.source text).2
        (Declarations.read options.source text).1.units = .ok p ∧
      (∀ i u, m.units.length ≤ i → c.model.units[i]? = some u → u.valid = true →
        ∃ d ∈ (Declarations.read options.source text).1.units, u.name = d.name ∧
          u.origin = .declared d.span ∧
          ∀ name ∈ d.references, ∃ j v, p.names.get? name = some j ∧
            c.model.units[j]? = some v ∧
            (v.valid = false ↔
              Exposed options m (Declarations.read options.source text).1.units name j v)) ∧
      ∀ i s, m.scales.length ≤ i → c.model.scales[i]? = some s → s.valid = true →
        ∃ d ∈ (Declarations.read options.source text).1.scales, s.name = d.name ∧
          s.origin = .declared d.span ∧ s.unit = p.names.get? d.unit ∧
          ∀ name ∈ d.unit :: d.offset.references, ∃ j v, p.names.get? name = some j ∧
            c.model.units[j]? = some v ∧ v.valid = true := by
  refine ⟨m.exists_extend_iff text options, fun c hc => ?_⟩
  obtain ⟨e, ds, -, -, he, -, -, hmodel⟩ := exists_extended hc
  obtain ⟨p, q, todo, s, retired, added, hp, hstages, hunits, hscales, -, hadded⟩ :=
    exists_stages_of_elaborate rfl he
  have hbare := e.map_bare_units options.firstFamily
  have hbare' := e.map_bare_scales options.firstFamily
  rw [← hmodel, hunits] at hbare
  rw [← hmodel, hscales] at hbare'
  refine ⟨p, hp, fun i u hi hu hvalid => ?_, fun i t hi ht hvalid => ?_⟩
  · obtain ⟨u', hu', heq⟩ := exists_getElem?_of_map_eq hbare hu
    obtain ⟨hname, horigin, hvalid', -⟩ := UnitEntry.eq_of_bare_eq heq
    obtain ⟨d, hd, hdname, hdorigin, hrests⟩ :=
      hstages.rests hi hu' (hvalid'.trans hvalid)
    refine ⟨d, hd, hname.symm.trans hdname, horigin.symm.trans hdorigin, fun name hmem => ?_⟩
    obtain ⟨j, v, hj, hv, hiff⟩ := hrests name hmem
    obtain ⟨v', hv', heq'⟩ := exists_getElem?_of_map_eq hbare.symm hv
    obtain ⟨-, -, hvalid'', hagree⟩ := UnitEntry.eq_of_bare_eq heq'
    refine ⟨j, v', hj, hv', ?_⟩
    unfold Exposed at hiff ⊢
    simp only [hvalid'', hagree]
    exact hiff
  · obtain ⟨t', ht', heq⟩ := exists_getElem?_of_map_eq hbare' ht
    obtain ⟨hname, horigin, hvalid', hunit⟩ := ScaleEntry.eq_of_bare_eq heq
    have ht' : (m.scales ++ added)[i]? = some t' := ht'
    rw [getElem?_append_right hi] at ht'
    obtain ⟨d, hd, hscale⟩ := exists_isScaleOf hadded (mem_of_getElem? ht')
    obtain ⟨hdunit, -, hdname, hdorigin⟩ := hscale.unit_eq
    refine ⟨d, hd, hname.symm.trans hdname, horigin.symm.trans hdorigin,
      hunit.symm.trans hdunit, fun name hmem => ?_⟩
    obtain ⟨j, v, hj, hv, hvvalid⟩ :=
      hstages.behind.rests hstages.named hscale (hvalid'.trans hvalid) name hmem
    obtain ⟨v', hv', heq'⟩ := exists_getElem?_of_map_eq hbare.symm hv
    exact ⟨j, v', hj, hv', (UnitEntry.eq_of_bare_eq heq').2.2.1.trans hvvalid⟩

/-- Feet that are a mass, yards in feet, and marks in yards. -/
def heavyFeet : String :=
  "unit Yard \"yd\" = 3 * Foot; unit Foot \"ft\" = <Mass>; unit Mark \"mk\" = 2 * Yard;"

/-- **Yards keep the meaning that they got from feet**, though the feet have lost theirs: they
differ from the feet that there were before. -/
theorem extend_heavyFeet :
    ∃ c d p, compile lengths { kind := .decimal } = .ok c ∧
      c.model.extend heavyFeet { kind := .decimal, redeclaration := .sameUnit } = .ok d ∧
      elaborateUnits { kind := .decimal, redeclaration := .sameUnit } c.model.beginLate
        (Declarations.read none heavyFeet).2 (Declarations.read none heavyFeet).1.units = .ok p ∧
      p.names.get? "Foot" = some 3 ∧
      d.model.units.map (fun u => (u.name, u.valid)) =
        [("Meter", true), ("Foot", true), ("Yard", true), ("Foot", false), ("Mark", true)] := by
  simp only [exists_and_left]
  decide +kernel

end Model

end Quantity
