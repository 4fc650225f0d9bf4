import Quantity.Proofs.Model.Declared
import Quantity.Proofs.Model.Passes
import Mathlib.Order.WellFounded

/-!
# The fixed point of unit declarations

Units are encoded while others still change, so each is encoded against another state of the
tables. Nothing is lost by that: `faithful_run` says that every unit has the meaning that its
declaration has at the end, and `wellFounded_run` that units rest on each other in no circle.
`elaborate_isFixedPoint` puts both together with the units that are given up.
-/

namespace Quantity.Elaborate

open Relation List

variable {options : Options} {todo : List (Nat × UnitDecl)} {p q r : Progress}

/-! ### Units mean what their declarations mean -/

/-- What a unit has become, and why. -/
inductive Outcome (options : Options) (s : Scope) (u : UnitEntry) (d : UnitDecl) :
    UnitState → UnitEntry → Prop
  | waits : Outcome options s u d .pending u
  | done {e : Encoded} (he : encodeUnit s (d.kind.getD options.kind) d = .ok e) :
      Outcome options s u d .done (complete options d e u)
  | failed {why : Diagnostic}
      (he : encodeUnit s (d.kind.getD options.kind) d = .error (.failed why)) :
      Outcome options s u d (.failed why) u

theorem Outcome.grows (h : Outcome options s u d state v) (hst : s.Grows t d.references) :
    Outcome options t u d state v := by
  cases h with
  | waits => exact .waits
  | done he => exact .done ((encodeUnit_stable hst).eq_ok he)
  | failed he => exact .failed ((encodeUnit_stable hst).eq_error he not_false)

/-- Every unit is what its declaration means against what is known now. -/
def Faithful (options : Options) (todo : List (Nat × UnitDecl)) (p₀ p : Progress) : Prop :=
  ∀ i d, (i, d) ∈ todo → ∃ u state v, p₀.units[i]? = some u ∧ p.states[i]? = some state ∧
    p.units[i]? = some v ∧ Outcome options p.toScope u d state v

theorem Awaits.faithful (hw : Awaits options p todo) : Faithful options todo p p := by
  intro i d hmem
  obtain ⟨u, hu, -⟩ := Option.map_eq_some_iff.mp (hw.kind i d hmem)
  exact ⟨u, .pending, u, hu, hw.pending i d hmem, hu, .waits⟩

/-- A unit that settles gets the meaning of its declaration and waits no longer. -/
theorem Settles.outcome {i : Nat} {d : UnitDecl} (h : Settles options i d p q)
    (hu : p.units[i]? = some u) : ∃ state v, q.states[i]? = some state ∧ q.units[i]? = some v ∧
      state ≠ .pending ∧ Outcome options p.toScope u d state v := by
  cases h with
  | @finish e hs he =>
    have hlt := lt_of_getElem? hs
    refine ⟨.done, complete options d e u, getElem?_set_self hlt, ?_, nofun, .done he⟩
    show (p.units.modify i _)[i]? = _
    rw [getElem?_modify_eq, hu]
    rfl
  | @fail why hs he =>
    have hlt := lt_of_getElem? hs
    exact ⟨.failed why, u, getElem?_set_self hlt, hu, nofun, .failed he⟩

theorem faithful_settles (hnodup : (todo.map (·.1)).Nodup) (h : Faithful options todo p₀ p)
    (hmem : (i, d) ∈ todo) (hstep : Settles options i d p q) : Faithful options todo p₀ q := by
  intro j d' hmem'
  obtain ⟨u, state, v, hu, hs, hv, ho⟩ := h j d' hmem'
  by_cases hij : j = i
  · subst hij
    have hd : d' = d := by
      have := inj_on_of_nodup_map hnodup hmem hmem' rfl
      exact (congrArg Prod.snd this).symm
    subst hd
    -- the unit waited, so it is the one that was declared
    have hpending : p.states[j]? = some .pending := by cases hstep <;> assumption
    rw [hs] at hpending
    cases hpending
    cases ho
    obtain ⟨state, v, hs', hv', -, ho'⟩ := hstep.outcome hv
    exact ⟨u, state, v, hu, hs', hv', ho'.grows (hstep.advances.grows _)⟩
  · obtain ⟨hs', hv'⟩ := hstep.elsewhere hij
    exact ⟨u, state, v, hu, hs'.trans hs, hv'.trans hv, ho.grows (hstep.advances.grows _)⟩

/-- **All units keep to the meaning of their declarations**, whatever settles in between. -/
theorem faithful_run (hw : Awaits options p todo) (h : Run options todo p q) :
    Faithful options todo p q := by
  induction h with
  | refl => exact hw.faithful
  | tail _ hstep ih =>
    obtain ⟨i, d, hmem, hstep⟩ := hstep
    exact faithful_settles hw.nodup ih hmem hstep

/-! ### No circles -/

/-- The unit at the first place refers to the unit at the second, and both have a meaning. -/
def RestsOn (todo : List (Nat × UnitDecl)) (p : Progress) (i j : Nat) : Prop :=
  p.states[i]? = some .done ∧ p.states[j]? = some .done ∧
    ∃ d, (i, d) ∈ todo ∧ ∃ name ∈ d.references, p.names.get? name = some j

theorem done_of_lookup {s : Scope} (h : s.lookup name = .resolved u) :
    ∃ j, s.names.get? name = some j ∧ s.states[j]? = some .done := by
  unfold Scope.lookup at h
  cases hj : s.names.get? name with
  | none =>
    rw [hj] at h
    cases h
  | some j =>
    rw [hj] at h
    dsimp only at h
    split at h
    · rename_i hs _
      rw [Scope.state, getD_eq_getElem?_getD] at hs
      refine ⟨j, rfl, ?_⟩
      cases hstate : s.states[j]? with
      | none =>
        rw [hstate] at hs
        cases hs
      | some state =>
        rw [hstate] at hs
        exact congrArg some hs
    · cases h
    · cases h

theorem references_done (he : encodeUnit s kind d = .ok e) (hname : name ∈ d.references)
    (hj : s.names.get? name = some j) : s.states[j]? = some .done := by
  obtain ⟨u, hu⟩ := resolved_of_encodeUnit he name hname
  obtain ⟨j', hj', hdone⟩ := done_of_lookup hu
  rw [hj] at hj'
  cases hj'
  exact hdone

theorem done_of_restsOn (hnodup : (todo.map (·.1)).Nodup) (hf : Faithful options todo p₀ p)
    (hmem : (i, d) ∈ todo) (hstep : Settles options i d p q) (h : RestsOn todo q k j) :
    p.states[j]? = some .done := by
  obtain ⟨hk, -, d', hmem', name, hname, hj⟩ := h
  rw [hstep.advances.names] at hj
  by_cases hki : k = i
  · subst hki
    have heq : d' = d :=
      congrArg Prod.snd (inj_on_of_nodup_map hnodup hmem' hmem rfl)
    subst heq
    cases hstep with
    | finish hs he => exact references_done he hname hj
    | fail hs _ =>
      have hlt := lt_of_getElem? hs
      rw [show (p.fail k _).states[k]? = _ from getElem?_set_self hlt] at hk
      cases hk
  · obtain ⟨u, state, v, -, hs, -, ho⟩ := hf k d' hmem'
    rw [(hstep.elsewhere hki).1, hs] at hk
    cases hk
    cases ho with
    | done he => exact references_done he hname hj

/-- A step closes no circle: the new unit rests on older ones, and none of them on it. -/
theorem wellFounded_settles (hnodup : (todo.map (·.1)).Nodup) (hf : Faithful options todo p₀ p)
    (hmem : (i, d) ∈ todo) (hstep : Settles options i d p q)
    (hwf : WellFounded (Function.swap (RestsOn todo p))) :
    WellFounded (Function.swap (RestsOn todo q)) := by
  have hdone {k j : Nat} (h : RestsOn todo q k j) : p.states[j]? = some .done :=
    done_of_restsOn hnodup hf hmem hstep h
  have hold : ∀ k, p.states[k]? = some .done → Acc (Function.swap (RestsOn todo q)) k := by
    intro k
    induction k using hwf.induction with
    | _ k ih =>
      intro hk
      refine Acc.intro k fun j hj => ih j ⟨hk, hdone hj, ?_⟩ (hdone hj)
      rw [← hstep.advances.names]
      exact hj.2.2
  exact ⟨fun k => Acc.intro k fun j hj => hold j (hdone hj)⟩

/-- **Units rest on each other in no circle**, whatever settles. -/
theorem wellFounded_run (hw : Awaits options p todo) (h : Run options todo p q) :
    WellFounded (Function.swap (RestsOn todo q)) := by
  induction h with
  | refl =>
    refine ⟨fun k => Acc.intro k fun j hj => ?_⟩
    obtain ⟨hk, -, d, hmem, -⟩ := hj
    rw [hw.pending k d hmem] at hk
    cases hk
  | tail hrun hstep ih =>
    obtain ⟨i, d, hmem, hstep⟩ := hstep
    exact wellFounded_settles hw.nodup (faithful_run hw hrun) hmem hstep ih

/-! ### Giving up -/

/-- All units that wait are listed, and names lead to units. -/
structure Ready (options : Options) (p : Progress) (todo : List (Nat × UnitDecl)) : Prop
    extends Awaits options p todo where
  length : p.states.length = p.units.length
  names_lt : ∀ name i, p.names.get? name = some i → i < p.units.length
  listed : ∀ i, p.states[i]? = some .pending → ∃ d, (i, d) ∈ todo

theorem Ready.pending_of_lookup (h : Ready options p todo) (hq : Advances p q)
    (hn : q.lookup name = .pending) :
    ∃ j, q.names.get? name = some j ∧ q.states[j]? = some .pending := by
  unfold Scope.lookup at hn
  cases hj : q.names.get? name with
  | none =>
    rw [hj] at hn
    cases hn
  | some j =>
    have hlt := h.names_lt name j (hq.names ▸ hj)
    obtain ⟨state, hs⟩ : ∃ state, q.states[j]? = some state := by
      rw [← h.length, ← hq.length] at hlt
      exact ⟨_, getElem?_eq_getElem hlt⟩
    obtain ⟨u, hu⟩ : ∃ u, q.units[j]? = some u := by
      have hk := hq.kind j
      rw [getElem?_eq_getElem hlt] at hk
      obtain ⟨u, hu, -⟩ := Option.map_eq_some_iff.mp hk
      exact ⟨u, hu⟩
    refine ⟨j, rfl, ?_⟩
    simp only [hj, Scope.state, getD_eq_getElem?_getD, hs, hu] at hn
    cases state with
    | pending => exact hs
    | done => cases hn
    | failed _ => cases hn

section GiveUp

variable {deferred : List Deferred}

theorem advances_giveUp (h : ∀ y ∈ deferred, r.states[y.place]? = some .pending) :
    Advances r (giveUp deferred r) where
  names := names_giveUp deferred r
  length := length_states_giveUp deferred r
  kinds := by rw [units_giveUp]
  settled i hi := by
    refine ⟨states_giveUp_of_not_mem ?_, by rw [units_giveUp]⟩
    intro hmem
    obtain ⟨y, hy, rfl⟩ := mem_map.mp hmem
    exact hi (h y hy)

theorem Leaves.pending (h : Leaves options todo p r deferred) (hy : y ∈ deferred) :
    r.states[y.place]? = some .pending := by
  have hmem : (y.place, y.decl) ∈ deferred.map Deferred.entry := mem_map.mpr ⟨y, hy, rfl⟩
  exact (h.left _ _ (h.sublist.subset hmem)).mpr hmem

theorem Stuck.advances (h : Stuck options todo p r deferred) : Advances p (giveUp deferred r) :=
  h.run.advances.trans (advances_giveUp fun y hy => h.pending hy)

theorem Leaves.nodup_places (h : Leaves options todo p r deferred) (hw : Awaits options p todo) :
    (deferred.map (·.place)).Nodup := by
  have := (h.awaits hw).nodup
  rwa [List.map_map] at this

theorem Leaves.states_giveUp (h : Leaves options todo p r deferred) (hw : Awaits options p todo)
    (hy : y ∈ deferred) :
    (giveUp deferred r).states[y.place]? = some (.failed (unitError y.span (.unresolved y.name))) :=
  Elaborate.states_giveUp (h.nodup_places hw) hy (lt_of_getElem? (h.pending hy))

/-- **A unit that is given up has no meaning**, also when those it waits for are given up. -/
theorem Stuck.not_encoded (h : Stuck options todo p r deferred) (hp : Ready options p todo)
    (hy : y ∈ deferred) (e : Encoded) :
    encodeUnit (giveUp deferred r).toScope (y.decl.kind.getD options.kind) y.decl ≠ .ok e := by
  intro he
  obtain ⟨hname, hlookup⟩ : y.name ∈ y.decl.references ∧ r.lookup y.name = .pending :=
    justified_of_encodeUnit (h.waits y hy)
  obtain ⟨j, hj, hpending⟩ := hp.pending_of_lookup h.run.advances hlookup
  -- what it waits for waits itself, so it is on the list and fails
  obtain ⟨d, hmem⟩ := hp.listed j (h.run.advances.pending hpending)
  obtain ⟨x, hx, heq⟩ := mem_map.mp ((h.left j d hmem).mp hpending)
  cases heq
  have hdone := references_done he hname ((names_giveUp deferred r).symm ▸ hj)
  rw [h.states_giveUp hp.toAwaits hx] at hdone
  cases hdone

end GiveUp

/-! ### The fixed point -/

/-- What has become of a unit in the end: it has the meaning of its declaration, or there is
none and the unit is as it was declared. -/
def Final (options : Options) (q : Progress) (i : Nat) (d : UnitDecl) (u : UnitEntry) : Prop :=
  (∃ e, encodeUnit q.toScope (d.kind.getD options.kind) d = .ok e ∧
      q.states[i]? = some .done ∧ q.units[i]? = some (complete options d e u)) ∨
    (∀ e, encodeUnit q.toScope (d.kind.getD options.kind) d ≠ .ok e) ∧
      (∃ why, q.states[i]? = some (.failed why)) ∧ q.units[i]? = some u

theorem Stuck.final (h : Stuck options todo p r deferred) (hp : Ready options p todo)
    (hmem : (i, d) ∈ todo) :
    ∃ u, p.units[i]? = some u ∧ Final options (giveUp deferred r) i d u := by
  obtain ⟨u, state, v, hu, hs, hv, ho⟩ := faithful_run hp.toAwaits h.run i d hmem
  have hadv : Advances r (giveUp deferred r) := advances_giveUp fun y hy => h.pending hy
  refine ⟨u, hu, ?_⟩
  have hsettled (hi : r.states[i]? ≠ some .pending) := hadv.settled i hi
  cases ho.grows (hadv.grows d.references) with
  | waits =>
    obtain ⟨y, hy, heq⟩ := mem_map.mp ((h.left i d hmem).mp hs)
    cases heq
    refine .inr ⟨h.not_encoded hp hy, ⟨_, h.states_giveUp hp.toAwaits hy⟩, ?_⟩
    rw [units_giveUp, hv]
  | @done e he =>
    obtain ⟨hs', hv'⟩ := hsettled (by rw [hs]; exact nofun)
    exact .inl ⟨e, he, hs'.trans hs, hv'.trans hv⟩
  | failed he =>
    obtain ⟨hs', hv'⟩ := hsettled (by rw [hs]; exact nofun)
    refine .inr ⟨fun e he' => ?_, ⟨_, hs'.trans hs⟩, hv'.trans hv⟩
    rw [he] at he'
    cases he'

theorem RestsOn.of_giveUp (h : RestsOn todo (giveUp deferred r) i j) : RestsOn todo r i j := by
  obtain ⟨hi, hj, href⟩ := h
  rw [names_giveUp] at href
  exact ⟨done_of_giveUp hi, done_of_giveUp hj, href⟩

theorem Declared.ready {todo : Todo} (h : Declared options m units p todo) :
    Ready options p todo.pending where
  nodup := h.nodup
  pending i d hmem := (h.pending i d hmem).1
  kind i d hmem := by
    obtain ⟨-, k, rfl, hk⟩ := h.pending i d hmem
    obtain ⟨redeclared, hu⟩ := h.late_unit k d hk
    rw [hu]
    rfl
  length := h.length_states
  names_lt := h.names_lt
  listed i hi := by
    have hlt : i < p.units.length := h.length_states ▸ lt_of_getElem? hi
    have hlate : m.units.length ≤ i := Nat.le_of_not_lt fun hlt => h.early_state i hlt hi
    rw [h.length_units] at hlt
    obtain ⟨k, rfl⟩ := Nat.exists_eq_add_of_le hlate
    have hk := getElem?_eq_getElem (Nat.lt_of_add_lt_add_left hlt)
    rcases h.late_state k _ hk with ⟨-, hmem⟩ | ⟨why, hfailed⟩
    · exact ⟨_, hmem⟩
    · rw [hi] at hfailed
      cases hfailed

/-- The well-founded fixed point of declarations behind the units of a model, of which some
were accepted: those have a meaning that have one with the final tables, and it is this one;
the others and those that were refused have none; nothing waits, and units with a meaning
refer to each other in no circle. -/
structure IsFixedPoint (options : Options) (m : Model) (units : List UnitDecl)
    (accepted : List (Nat × UnitDecl)) (p : Progress) : Prop where
  length : p.units.length = m.units.length + units.length
  early : ∀ i < m.units.length, p.units[i]? = m.units[i]?
  meaning : ∀ k d, units[k]? = some d → (m.units.length + k, d) ∈ accepted →
    ∃ u, p.units[m.units.length + k]? = some u ∧ u.name = d.name ∧
      (u.valid = true ↔ ∃ e, encodeUnit p.toScope (d.kind.getD options.kind) d = .ok e) ∧
      ∀ e, encodeUnit p.toScope (d.kind.getD options.kind) d = .ok e →
        u.dimension = e.dimension ∧ u.factor = e.factor
  refused : ∀ k d, units[k]? = some d → (m.units.length + k, d) ∉ accepted →
    ∃ u, p.units[m.units.length + k]? = some u ∧ u.name = d.name ∧ u.valid = false
  states : ∀ i u, m.units.length ≤ i → p.units[i]? = some u →
    p.states[i]? = some .done ∧ u.valid = true ∨
      (∃ why, p.states[i]? = some (.failed why)) ∧ u.valid = false
  acyclic : ∀ i, ¬ TransGen (RestsOn accepted p) i i

section Stuck

variable {m : Model} {units : List UnitDecl} {todo : Todo} {deferred : List Deferred}

theorem Stuck.late (h : Stuck options todo.pending p r deferred)
    (hd : Declared options m units p todo) (hk : units[k]? = some d) :
    ∃ redeclared,
      (m.units.length + k, d) ∈ todo.pending ∧
          Final options (giveUp deferred r) (m.units.length + k) d (fresh options d redeclared) ∨
        (m.units.length + k, d) ∉ todo.pending ∧
          (∃ why, (giveUp deferred r).states[m.units.length + k]? = some (.failed why)) ∧
            (giveUp deferred r).units[m.units.length + k]? = some (fresh options d redeclared) := by
  obtain ⟨redeclared, hu⟩ := hd.late_unit k d hk
  refine ⟨redeclared, ?_⟩
  rcases hd.late_state k d hk with ⟨-, hmem⟩ | ⟨why, hs⟩
  · obtain ⟨u, hu', hfinal⟩ := h.final hd.ready hmem
    rw [hu] at hu'
    cases hu'
    exact .inl ⟨hmem, hfinal⟩
  · have hadv := h.advances
    obtain ⟨hs', hu'⟩ := hadv.settled (m.units.length + k) (by rw [hs]; exact nofun)
    refine .inr ⟨fun hmem => ?_, ⟨why, hs'.trans hs⟩, hu'.trans hu⟩
    rw [(hd.pending _ d hmem).1] at hs
    cases hs

/-- A late unit has the meaning of its declaration, or is as it was declared. -/
theorem Stuck.late_cases (h : Stuck options todo.pending p r deferred)
    (hd : Declared options m units p todo) (hi : m.units.length ≤ i)
    (hu : (giveUp deferred r).units[i]? = some u) :
    ((giveUp deferred r).states[i]? = some .done ∧
        ∃ d e redeclared, u = complete options d e (fresh options d redeclared)) ∨
      (∃ why, (giveUp deferred r).states[i]? = some (.failed why)) ∧
        ∃ d redeclared, u = fresh options d redeclared := by
  have hadv := h.advances
  have hlt := lt_of_getElem? hu
  rw [hadv.length_units, hd.length_units] at hlt
  obtain ⟨k, rfl⟩ := Nat.exists_eq_add_of_le hi
  have hk := getElem?_eq_getElem (Nat.lt_of_add_lt_add_left hlt)
  obtain ⟨redeclared, ⟨-, ⟨e, -, hs, hu'⟩ | ⟨-, hs, hu'⟩⟩ | ⟨-, hs, hu'⟩⟩ := h.late hd hk
  · exact .inl ⟨hs, _, e, redeclared, Option.some.inj (hu.symm.trans hu')⟩
  · exact .inr ⟨hs, _, redeclared, Option.some.inj (hu.symm.trans hu')⟩
  · exact .inr ⟨hs, _, redeclared, Option.some.inj (hu.symm.trans hu')⟩

theorem Stuck.isFixedPoint (h : Stuck options todo.pending p r deferred)
    (hd : Declared options m units p todo) :
    IsFixedPoint options m units todo.pending (giveUp deferred r) where
  length := by
    have hadv := h.advances
    exact hadv.length_units.trans hd.length_units
  early i hi := by
    have hadv := h.advances
    exact (hadv.settled i (hd.early_state i hi)).2.trans (hd.early_unit i hi)
  meaning k d hk hmem := by
    obtain ⟨redeclared, ⟨-, hfinal⟩ | ⟨hmem', -⟩⟩ := h.late hd hk
    · rcases hfinal with ⟨e, he, -, hu⟩ | ⟨hne, -, hu⟩
      · refine ⟨_, hu, rfl, iff_of_true rfl ⟨e, he⟩, fun e' he' => ?_⟩
        rw [he] at he'
        cases he'
        exact ⟨rfl, rfl⟩
      · exact ⟨_, hu, rfl, iff_of_false nofun fun ⟨e, he⟩ => hne e he, fun e he => absurd he (hne e)⟩
    · exact absurd hmem hmem'
  refused k d hk hmem := by
    obtain ⟨redeclared, ⟨hmem', -⟩ | ⟨-, -, hu⟩⟩ := h.late hd hk
    · exact absurd hmem' hmem
    · exact ⟨_, hu, rfl, rfl⟩
  states i u hi hu := by
    rcases h.late_cases hd hi hu with ⟨hs, d, e, redeclared, rfl⟩ | ⟨hs, d, redeclared, rfl⟩
    · exact .inl ⟨hs, rfl⟩
    · exact .inr ⟨hs, rfl⟩
  acyclic i hi := by
    have hwf := (wellFounded_run hd.ready.toAwaits h.run).transGen
    have hi : TransGen (RestsOn todo.pending r) i i :=
      TransGen.mono (fun _ _ => RestsOn.of_giveUp) _ _ hi
    exact hwf.irrefl.irrefl i (transGen_swap.mpr hi)

end Stuck

/-! ### Elaboration -/

theorem without_nil (xs : List α) : without [] xs = xs := by
  unfold without
  simp

theorem removeUnits_nil (p : Progress) : removeUnits [] p = p := by
  have hnames : p.names.map (renumber []) = p.names := by
    unfold Table.map renumber
    simp
  unfold removeUnits
  rw [without_nil, without_nil, hnames]

theorem elaborateUnits_eq (m : Model) (ds : Diagnostics) (units : List UnitDecl)
    (h : (declareAll options m ds units).2.aliases = []) :
    elaborateUnits options m ds units = encodeUnits options (declareAll options m ds units).1
      (declareAll options m ds units).2.pending := by
  unfold elaborateUnits
  dsimp only
  rw [h]
  cases encodeUnits options (declareAll options m ds units).1
      (declareAll options m ds units).2.pending with
  | error e => rfl
  | ok p => exact congrArg Except.ok (removeUnits_nil p)

/-- The passes over declared units end, and they fail only if a definition is no product. -/
theorem encodeUnits_cases {todo : Todo} (hd : Declared options m units p todo) :
    (∃ e, encodeUnits options p todo.pending = .error e ∧ ∃ d ∈ units, ¬ d.IsProduct) ∨
      ∃ r deferred, encodeUnits options p todo.pending = .ok (giveUp deferred r) ∧
        Stuck options todo.pending p r deferred := by
  have h := ends_encodeUnits hd.ready.toAwaits
  cases he : encodeUnits options p todo.pending with
  | ok q =>
    rw [he] at h
    obtain ⟨r, deferred, hstuck, rfl⟩ := h
    exact .inr ⟨r, deferred, rfl, hstuck⟩
  | error e =>
    rw [he] at h
    obtain ⟨r, i, d, message, -, hmem, hinternal⟩ := h
    obtain ⟨-, k, -, hk⟩ := hd.pending i d hmem
    exact .inl ⟨e, rfl, d, mem_of_getElem? hk, justified_of_encodeUnit hinternal⟩

/-- Units always get their meaning, unless a definition is no product. -/
theorem exists_elaborateUnits (options : Options) (m : Model) (ds : Diagnostics)
    (h : ∀ d ∈ units, d.IsProduct) : ∃ p, elaborateUnits options m ds units = .ok p := by
  rcases encodeUnits_cases (declared_declareUnits m.lateUnits units (declared_start options m ds))
    with ⟨-, -, d, hmem, hd⟩ | ⟨r, deferred, he, -⟩
  · exact absurd (h d hmem) hd
  · unfold elaborateUnits
    dsimp only
    rw [he]
    exact ⟨_, rfl⟩

/-- **The passes compute the well-founded fixed point of the declarations**, unless late units
are to be the same as earlier ones of their names. They always end, and fail only if some
definition is no product. -/
theorem elaborate_isFixedPoint (options : Options) (m : Model) (ds : Diagnostics)
    (d : Declarations) (h : options.redeclaration ≠ .sameUnit) :
    (∃ e, elaborate options m ds d = .error e ∧ ∃ u ∈ d.units, ¬ u.IsProduct) ∨
      ∃ p m' ds', elaborateUnits options m ds d.units = .ok p ∧
        elaborate options m ds d = .ok (m', ds') ∧ m'.units = p.units ∧
          IsFixedPoint options m d.units (declareAll options m ds d.units).2.pending p := by
  have hd := declared_declareUnits m.lateUnits d.units (declared_start options m ds)
  have heq := elaborateUnits_eq m ds d.units (hd.aliases h)
  unfold elaborate
  rcases encodeUnits_cases hd with ⟨e, he, hproduct⟩ | ⟨r, deferred, he, hstuck⟩
  · rw [heq, he]
    exact .inl ⟨e, rfl, hproduct⟩
  · rw [heq, he]
    exact .inr ⟨_, _, _, rfl, rfl, rfl, hstuck.isFixedPoint hd⟩

/-- A declaration with one definition and its name for a tag. -/
def plainDecl (name : String) (definition : Expr) : UnitDecl :=
  { name, span := {}, kind := none, tags := [name], format := none, definition, alternatives := [] }

/-- A unit that refers to a later one, and two units that wait for each other. -/
def henAndEgg : List UnitDecl :=
  [plainDecl "Mile" (.arith .product (.number "1609" {}) (.reference "Meter" {})),
    plainDecl "Meter" (.magnitude (some .length) {}),
    plainDecl "Hen" (.reference "Egg" {}), plainDecl "Egg" (.reference "Hen" {})]

theorem isProduct_henAndEgg : ∀ d ∈ henAndEgg, d.IsProduct := by
  simp [henAndEgg, plainDecl, UnitDecl.IsProduct, UnitDecl.definitions, Expr.IsProduct]

theorem elaborate_isFixedPoint_henAndEgg :
    Redeclaration.reject ≠ .sameUnit ∧
      ∃ p m' ds', elaborateUnits { redeclaration := .reject } {} {} henAndEgg = .ok p ∧
        elaborate { redeclaration := .reject } {} {} { units := henAndEgg } = .ok (m', ds') ∧
          m'.units = p.units ∧
            IsFixedPoint { redeclaration := .reject } {} henAndEgg
              (declareUnits { redeclaration := .reject } 0 (start {} {}) {} henAndEgg).2.pending p := by
  refine ⟨by decide, ?_⟩
  rcases elaborate_isFixedPoint { redeclaration := .reject } {} {} { units := henAndEgg } (by decide)
    with ⟨-, -, d, hmem, hd⟩ | h
  · exact absurd (isProduct_henAndEgg d hmem) hd
  · exact h

end Quantity.Elaborate
