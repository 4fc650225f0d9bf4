import Quantity.Proofs.Model.Accepted

/-!
# The order of declarations

Units of different names and symbols are all accepted. The passes meet them in the order in
which they are declared, so they settle in different orders, but whatever one order knows at
some time the other one knows in the end (`below_run`). So both end alike, and the units that
are given up wait for the same names.
-/

namespace Quantity.Elaborate

open List

variable {options : Options}

/-! ### Different units -/

section Empty

variable {ds : Diagnostics} {us : List UnitDecl} {p : Progress} {todo : Todo} {d : UnitDecl}
  {i : Nat}

/-- **Units that differ all wait** if there are no others. -/
theorem allWait_of_differ (options : Options) (ds : Diagnostics) (hdiffer : us.Pairwise Differ) :
    AllWait options {} ds us (declareUnits options 0 (start {} ds) {} us).1
      (declareUnits options 0 (start {} ds) {} us).2 := by
  have hadmitted : AllAdmitted options {} us :=
    ⟨hdiffer, fun d _ => ⟨fun _ => rfl, fun _ _ _ hi => nomatch hi⟩⟩
  rcases declareUnits_cases us (allWait_start options {} ds) ⟨List.Pairwise.nil, nofun⟩ with
    ⟨-, h⟩ | ⟨h, -⟩
  · exact h
  · exact absurd hadmitted h

variable (h : AllWait options {} ds us p todo)
include h

theorem AllWait.names_iff (name : String) (i : Nat) :
    p.names.get? name = some i ↔ ∃ d, us[i]? = some d ∧ d.name = name := by
  rw [h.names name i]
  constructor
  · rintro (⟨k, d, hk, hn, rfl⟩ | ⟨-, ⟨⟩⟩)
    exact ⟨d, (Nat.zero_add k).symm ▸ hk, (mem_singleton.mp hn).symm⟩
  · rintro ⟨d, hi, rfl⟩
    exact .inl ⟨i, d, hi, mem_singleton_self _, (Nat.zero_add i).symm⟩

theorem AllWait.pending_iff (i : Nat) (d : UnitDecl) : (i, d) ∈ todo.pending ↔ us[i]? = some d := by
  rw [h.pending i d]
  constructor
  · rintro ⟨k, rfl, hk⟩
    exact (Nat.zero_add k).symm ▸ hk
  · exact fun hi => ⟨i, (Nat.zero_add i).symm, hi⟩

theorem AllWait.unit_eq (hi : us[i]? = some d) : p.units[i]? = some (fresh options d false) := by
  have hu := h.unit hi
  rw [show redeclares options {} d = false by simp [redeclares, Model.findUnit?, Model.places]] at hu
  exact (Nat.zero_add i) ▸ hu

theorem AllWait.length_eq : p.units.length = us.length :=
  h.length.trans (Nat.zero_add _)

theorem AllWait.aliases_eq : todo.aliases = [] := by
  rw [h.aliases]
  unfold aliasesOf
  split_ifs
  · exact filterMap_eq_nil_iff.mpr fun _ _ => rfl
  · rfl

end Empty

/-! ### What becomes of a declaration -/

/-- How far a unit has come when its declaration is encoded with this result. -/
def reached : Except Failure Encoded → UnitState
  | .ok _ => .done
  | .error (.failed why) => .failed why
  | .error _ => .pending

/-- The unit of a declaration that is encoded with this result. -/
def unitOf (options : Options) (d : UnitDecl) : Except Failure Encoded → UnitEntry
  | .ok e => complete options d e (fresh options d false)
  | .error _ => fresh options d false

theorem name_unitOf (options : Options) (d : UnitDecl) (x : Except Failure Encoded) :
    (unitOf options d x).name = d.name := by
  cases x <;> rfl

section Reached

variable {todo : List (Nat × UnitDecl)} {p q r : Progress} {i : Nat} {d : UnitDecl}

theorem Settles.reached (h : Settles options i d p q)
    (hu : p.units[i]? = some (fresh options d false)) :
    q.states[i]? = some (reached (encodeUnit p.toScope (d.kind.getD options.kind) d)) ∧
      q.units[i]? = some (unitOf options d (encodeUnit p.toScope (d.kind.getD options.kind) d)) ∧
      ¬ EndsWith Failure.IsDeferred (encodeUnit p.toScope (d.kind.getD options.kind) d) := by
  obtain ⟨state, v, hs, hv, hne, ho⟩ := h.outcome hu
  rw [hs, hv]
  cases ho with
  | waits => exact absurd rfl hne
  | done he =>
    rw [he]
    exact ⟨rfl, rfl, nofun⟩
  | failed he =>
    rw [he]
    refine ⟨rfl, rfl, ?_⟩
    rintro ⟨_, ⟨⟩, hd⟩
    exact hd

/-- Once no unit can settle any more, every unit is as its declaration is encoded. -/
theorem Stuck.reached (h : Stuck options todo p r deferred) (hw : Awaits options p todo)
    (hmem : (i, d) ∈ todo) (hu : p.units[i]? = some (fresh options d false)) :
    r.states[i]? = some (reached (encodeUnit r.toScope (d.kind.getD options.kind) d)) ∧
      r.units[i]? = some (unitOf options d (encodeUnit r.toScope (d.kind.getD options.kind) d)) ∧
      ∀ message, encodeUnit r.toScope (d.kind.getD options.kind) d ≠ .error (.internal message) := by
  obtain ⟨u, state, v, hu', hs, hv, ho⟩ := faithful_run hw h.run i d hmem
  rw [hu] at hu'
  cases hu'
  rw [hs, hv]
  cases ho with
  | waits =>
    obtain ⟨y, hy, heq⟩ := mem_map.mp ((h.left i d hmem).mp hs)
    cases heq
    have he := h.waits y hy
    rw [he]
    exact ⟨rfl, rfl, nofun⟩
  | done he =>
    rw [he]
    exact ⟨rfl, rfl, nofun⟩
  | failed he =>
    rw [he]
    exact ⟨rfl, rfl, nofun⟩

/-- How a unit ends: it is given up if it waits. -/
def ended : Except Failure Encoded → UnitState
  | .error (.deferred name span) => .failed (unitError span (.unresolved name))
  | x => Elaborate.reached x

theorem Stuck.ended (h : Stuck options todo p r deferred) (hw : Awaits options p todo)
    (hmem : (i, d) ∈ todo) (hu : p.units[i]? = some (fresh options d false)) :
    (giveUp deferred r).states[i]? =
        some (ended (encodeUnit r.toScope (d.kind.getD options.kind) d)) ∧
      (giveUp deferred r).units[i]? =
        some (unitOf options d (encodeUnit r.toScope (d.kind.getD options.kind) d)) := by
  obtain ⟨hs, hv, -⟩ := h.reached hw hmem hu
  rw [units_giveUp]
  refine ⟨?_, hv⟩
  by_cases hpending : r.states[i]? = some .pending
  · obtain ⟨y, hy, heq⟩ := mem_map.mp ((h.left i d hmem).mp hpending)
    cases heq
    have he := h.waits y hy
    rw [h.states_giveUp hw hy, he]
    rfl
  · rw [((advances_giveUp fun y hy => h.pending hy).settled i hpending).1, hs]
    rw [hs] at hpending
    revert hpending
    cases encodeUnit r.toScope (d.kind.getD options.kind) d with
    | ok e => exact fun _ => rfl
    | error f =>
      cases f with
      | failed why => exact fun _ => rfl
      | deferred name span => exact fun h => absurd rfl h
      | internal message => exact fun h => absurd rfl h

end Reached

/-! ### What is reported -/

def why? : UnitState → Option Diagnostic
  | .failed why => some why
  | _ => none

/-- The diagnostic as it is reported: without a source of its own it gets that of the list. -/
def reported (source : Option String) (d : Diagnostic) : Diagnostic :=
  { d with source := d.source.or source }

/-- The diagnostics are those of before and one for each unit without a meaning. -/
structure Reports (ds : Diagnostics) (p : Progress) : Prop where
  source : p.diagnostics.source = ds.source
  items : p.diagnostics.items.Perm
    (ds.items ++ (p.states.filterMap why?).map (reported ds.source))

theorem filterMap_set_perm {α β : Type} {f : α → Option β} {xs : List α} {i : Nat} {x y : α}
    (hx : xs[i]? = some x) (hf : f x = none) :
    ((xs.set i y).filterMap f).Perm ((f y).toList ++ xs.filterMap f) := by
  induction xs generalizing i with
  | nil => cases hx
  | cons z zs ih =>
    cases i with
    | zero =>
      cases hx
      rw [set_cons_zero, filterMap_cons_none hf]
      cases hy : f y with
      | none => rw [filterMap_cons_none hy]; exact .refl _
      | some b => rw [filterMap_cons_some hy]; exact .refl _
    | succ i =>
      rw [set_cons_succ]
      have h := ih hx
      cases hz : f z with
      | none => rw [filterMap_cons_none hz, filterMap_cons_none hz]; exact h
      | some b =>
        rw [filterMap_cons_some hz, filterMap_cons_some hz]
        exact (h.cons b).trans perm_middle.symm

section Reports

variable {ds : Diagnostics} {p q : Progress} {i : Nat}

theorem Reports.fail (h : Reports ds p) (hi : p.states[i]? = some .pending) (why : Diagnostic) :
    Reports ds (p.fail i why) where
  source := h.source
  items := by
    have hset : ((p.states.set i (.failed why)).filterMap why?).Perm
        (why :: p.states.filterMap why?) := filterMap_set_perm hi rfl
    show (p.diagnostics.items ++ [reported p.diagnostics.source why]).Perm _
    rw [h.source]
    refine (perm_append_singleton _ _).trans ?_
    refine ((h.items.cons _).trans perm_middle.symm).trans ?_
    exact (hset.symm.map (reported ds.source)).append_left _

theorem Reports.settles (h : Reports ds p) (hstep : Settles options i d p q) : Reports ds q := by
  cases hstep with
  | finish hs _ =>
    have hset : ((p.states.set i .done).filterMap why?).Perm (p.states.filterMap why?) :=
      filterMap_set_perm hs rfl
    exact ⟨h.source, h.items.trans ((hset.symm.map _).append_left _)⟩
  | fail hs _ => exact h.fail hs _

theorem Reports.run (h : Reports ds p) (hrun : Run options todo p q) : Reports ds q := by
  induction hrun with
  | refl => exact h
  | tail _ hstep ih =>
    obtain ⟨i, d, -, hstep⟩ := hstep
    exact ih.settles hstep

theorem Reports.giveUp (h : Reports ds p) (hnodup : (deferred.map (·.place)).Nodup)
    (hpending : ∀ y ∈ deferred, p.states[y.place]? = some .pending) :
    Reports ds (giveUp deferred p) := by
  induction deferred generalizing p with
  | nil => exact h
  | cons y ys ih =>
    rw [map_cons, nodup_cons] at hnodup
    refine ih (h.fail (hpending y (mem_cons_self ..)) _) hnodup.2 fun x hx => ?_
    have hne : y.place ≠ x.place := fun heq => hnodup.1 (heq ▸ mem_map_of_mem hx)
    exact (getElem?_set_ne hne).trans (hpending x (mem_cons_of_mem _ hx))

end Reports

/-! ### Two orders -/

/-- Whatever the first order knows of a unit, the second one knows as well. -/
def Below (us vs : List UnitDecl) (p r : Progress) : Prop :=
  ∀ (i j : Nat) (d : UnitDecl), us[i]? = some d → vs[j]? = some d →
    p.states[i]? = some .pending ∨ r.states[j]? = p.states[i]? ∧ r.units[j]? = p.units[i]?

section Orders

variable {ds : Diagnostics} {us vs : List UnitDecl} {p q p' q' r : Progress} {todo todo' : Todo}
  {deferred deferred' : List Deferred} (hp : AllWait options {} ds us p todo)
  (hq : AllWait options {} ds vs q todo') (hmem : ∀ d, d ∈ us ↔ d ∈ vs)

include hp hq hmem

/-- A name leads to nothing in both orders, or to the places of one declaration. -/
theorem names_cases (name : String) :
    p.names.get? name = none ∧ q.names.get? name = none ∨
      ∃ i j d, us[i]? = some d ∧ vs[j]? = some d ∧ p.names.get? name = some i ∧
        q.names.get? name = some j := by
  cases hn : p.names.get? name with
  | none =>
    refine .inl ⟨rfl, Option.eq_none_iff_forall_ne_some.mpr fun j hj => ?_⟩
    obtain ⟨d, hd, rfl⟩ := (hq.names_iff name j).mp hj
    obtain ⟨i, hi⟩ := mem_iff_getElem?.mp ((hmem d).mpr (mem_of_getElem? hd))
    rw [(hp.names_iff d.name i).mpr ⟨d, hi, rfl⟩] at hn
    cases hn
  | some i =>
    obtain ⟨d, hi, rfl⟩ := (hp.names_iff name i).mp hn
    obtain ⟨j, hj⟩ := mem_iff_getElem?.mp ((hmem d).mp (mem_of_getElem? hi))
    exact .inr ⟨i, j, d, hi, hj, rfl, (hq.names_iff d.name j).mpr ⟨d, hj, rfl⟩⟩

theorem Below.grows (h : Below us vs p' q') (hpp : Advances p p') (hqq : Advances q q')
    (names : List String) : p'.toScope.Grows q'.toScope names := by
  intro name _
  rcases names_cases hp hq hmem name with ⟨hi, hj⟩ | ⟨i, j, d, hdi, hdj, hi, hj⟩
  · exact .inr (Scope.lookup_unknown (hpp.names ▸ hi) (hqq.names ▸ hj))
  · rcases h i j d hdi hdj with hpending | ⟨hs, hu⟩
    · exact .inl (Scope.lookup_eq_pending (hpp.names ▸ hi) hpending)
    · exact .inr (Scope.lookup_congr (hpp.names ▸ hi) (hqq.names ▸ hj) hs hu)

/-- What settles in the first order has settled in the second one, in the same way. -/
theorem below_settles (hstuck : Stuck options todo'.pending q r deferred)
    (hrun : Run options todo.pending p p') (h : Below us vs p' r) (hi : us[i]? = some d)
    (hstep : Settles options i d p' q') : Below us vs q' r := by
  intro i' j d' hi' hj
  by_cases hii : i' = i
  · subst hii
    rw [hi] at hi'
    cases hi'
    right
    have hu : p'.units[i']? = some (fresh options d false) := by
      obtain ⟨u, state, v, hu, hs, hv, ho⟩ :=
        faithful_run hp.ready.toAwaits hrun i' d ((hp.pending_iff i' d).mpr hi)
      have hpending : p'.states[i']? = some .pending := by cases hstep <;> assumption
      rw [hs] at hpending
      cases hpending
      cases ho
      rw [hv, ← hu, hp.unit_eq hi]
    obtain ⟨hs, hv, hne⟩ := hstep.reached hu
    obtain ⟨hs', hv', -⟩ :=
      hstuck.reached hq.ready.toAwaits ((hq.pending_iff j d).mpr hj) (hq.unit_eq hj)
    have hgrows := h.grows hp hq hmem hrun.advances hstuck.run.advances d.references
    have heq : encodeUnit r.toScope (d.kind.getD options.kind) d =
        encodeUnit p'.toScope (d.kind.getD options.kind) d :=
      (encodeUnit_stable hgrows).resolve_left hne
    rw [hs', hv', hs, hv, heq]
    exact ⟨rfl, rfl⟩
  · obtain ⟨hs, hu⟩ := hstep.elsewhere hii
    rw [hs, hu]
    exact h i' j d' hi' hj

/-- **Whatever one order knows at some time, the other one knows in the end.** -/
theorem below_run (hstuck : Stuck options todo'.pending q r deferred)
    (hrun : Run options todo.pending p p') : Below us vs p' r := by
  induction hrun with
  | refl =>
    intro i j d hi _
    exact .inl (hp.ready.pending i d ((hp.pending_iff i d).mpr hi))
  | tail hrun hstep ih =>
    obtain ⟨i, d, hmem', hstep⟩ := hstep
    exact below_settles hp hq hmem hstuck hrun ih ((hp.pending_iff i d).mp hmem') hstep

/-- **Both orders know the same in the end.** -/
theorem stuck_alike (hpp : Stuck options todo.pending p p' deferred)
    (hqq : Stuck options todo'.pending q q' deferred') {i j : Nat} (hi : us[i]? = some d)
    (hj : vs[j]? = some d) : q'.states[j]? = p'.states[i]? ∧ q'.units[j]? = p'.units[i]? := by
  rcases below_run hp hq hmem hqq hpp.run i j d hi hj with hpending | h
  · rcases below_run hq hp (fun d => (hmem d).symm) hpp hqq.run j i d hj hi with hpending' | h
    · -- the unit waits in both orders, so it is as it was declared
      obtain ⟨u, _, v, hu, hs, hv, ho⟩ :=
        faithful_run hp.ready.toAwaits hpp.run i d ((hp.pending_iff i d).mpr hi)
      obtain ⟨u', _, v', hu', hs', hv', ho'⟩ :=
        faithful_run hq.ready.toAwaits hqq.run j d ((hq.pending_iff j d).mpr hj)
      rw [hs] at hpending
      rw [hs'] at hpending'
      cases hpending
      cases hpending'
      cases ho
      cases ho'
      rw [hs, hs', hv, hv', ← hu, ← hu', hp.unit_eq hi, hq.unit_eq hj]
      exact ⟨rfl, rfl⟩
    · exact ⟨h.1.symm, h.2.symm⟩
  · exact h

theorem encodeUnit_alike (hpp : Stuck options todo.pending p p' deferred)
    (hqq : Stuck options todo'.pending q q' deferred') (kind : NumericKind) (d : UnitDecl) :
    encodeUnit q'.toScope kind d = encodeUnit p'.toScope kind d := by
  refine encodeUnit_congr (fun name => ?_) kind d
  have hpn := hpp.run.advances.names
  have hqn := hqq.run.advances.names
  rcases names_cases hp hq hmem name with ⟨hi, hj⟩ | ⟨i, j, d, hdi, hdj, hi, hj⟩
  · exact Scope.lookup_unknown (hpn ▸ hi) (hqn ▸ hj)
  · obtain ⟨hs, hu⟩ := stuck_alike hp hq hmem hpp hqq hdi hdj
    exact Scope.lookup_congr (hpn ▸ hi) (hqn ▸ hj) hs hu

theorem not_breaks (hqq : Stuck options todo'.pending q q' deferred') :
    ¬ Breaks options todo.pending p := by
  rintro ⟨r, i, d, message, hrun, hd, he⟩
  have hi := (hp.pending_iff i d).mp hd
  obtain ⟨j, hj⟩ := mem_iff_getElem?.mp ((hmem d).mp (mem_of_getElem? hi))
  have hgrows := (below_run hp hq hmem hqq hrun).grows hp hq hmem hrun.advances hqq.run.advances
    d.references
  have hne := (hqq.reached hq.ready.toAwaits ((hq.pending_iff j d).mpr hj) (hq.unit_eq hj)).2.2
  exact hne message ((encodeUnit_stable hgrows).eq_error he not_false)

end Orders

/-! ### Elaboration -/

/-- The unit that a name leads to, and how far it has come. -/
def Progress.find? (p : Progress) (name : String) : Option (UnitEntry × UnitState) := do
  let i ← p.names.get? name
  let u ← p.units[i]?
  let state ← p.states[i]?
  return (u, state)

/-- The outcome of units that differ: each is as its declaration is encoded, and what has no
meaning is reported. -/
structure Means (options : Options) (ds : Diagnostics) (us : List UnitDecl)
    (meaning : UnitDecl → Except Failure Encoded) (p : Progress) : Prop where
  names : ∀ name i, p.names.get? name = some i ↔ ∃ d, us[i]? = some d ∧ d.name = name
  units : p.units = us.map fun d => unitOf options d (meaning d)
  states : p.states = us.map fun d => ended (meaning d)
  decided : ∀ d ∈ us, ∀ message, meaning d ≠ .error (.internal message)
  reports : Reports ds p

section Means

variable {ds : Diagnostics} {us vs : List UnitDecl} {meaning : UnitDecl → Except Failure Encoded}
  {p q r : Progress} {d : UnitDecl}

theorem eq_map_of_getElem? {xs : List α} (hlen : ys.length = xs.length)
    (h : ∀ (i : Nat) (x : α), xs[i]? = some x → ys[i]? = some (f x)) : ys = xs.map f := by
  refine ext_getElem? fun i => ?_
  rw [getElem?_map]
  cases hi : xs[i]? with
  | none => exact getElem?_eq_none (hlen ▸ getElem?_eq_none_iff.mp hi)
  | some x => exact h i x hi

theorem Stuck.means (hp : AllWait options {} ds us p todo)
    (h : Stuck options todo.pending p r deferred) :
    Means options ds us (fun d => encodeUnit r.toScope (d.kind.getD options.kind) d)
      (giveUp deferred r) := by
  have hw := hp.ready.toAwaits
  have hadv := h.advances
  have hended {i : Nat} {d : UnitDecl} (hi : us[i]? = some d) :=
    h.ended hw ((hp.pending_iff i d).mpr hi) (hp.unit_eq hi)
  refine ⟨fun name i => ?_, ?_, ?_, ?_, ?_⟩
  · rw [hadv.names, hp.names_iff]
  · exact eq_map_of_getElem? (hadv.length_units.trans hp.length_eq) fun i d hi => (hended hi).2
  · refine eq_map_of_getElem? ?_ fun i d hi => (hended hi).1
    rw [hadv.length, hp.ready.length, hp.length_eq]
  · intro d hmem
    obtain ⟨i, hi⟩ := mem_iff_getElem?.mp hmem
    exact (h.reached hw ((hp.pending_iff i d).mpr hi) (hp.unit_eq hi)).2.2
  · have hstart : Reports ds p := by
      refine ⟨by rw [hp.diagnostics], ?_⟩
      have hnone : p.states.filterMap why? = [] := by
        simp [hp.states, start, why?]
      rw [hp.diagnostics, hnone, map_nil, append_nil]
    exact (hstart.run h.run).giveUp (h.nodup_places hw) fun y hy => h.pending hy

theorem Means.find? (h : Means options ds us meaning p) (hd : d ∈ us) :
    p.find? d.name = some (unitOf options d (meaning d), ended (meaning d)) := by
  obtain ⟨i, hi⟩ := mem_iff_getElem?.mp hd
  have hn := (h.names d.name i).mpr ⟨d, hi, rfl⟩
  simp [Progress.find?, hn, h.units, h.states, hi]

theorem Means.find?_eq_none (h : Means options ds us meaning p) (hn : ∀ d ∈ us, d.name ≠ name) :
    p.find? name = none := by
  have hnone : p.names.get? name = none := by
    refine Option.eq_none_iff_forall_ne_some.mpr fun i hi => ?_
    obtain ⟨d, hd, heq⟩ := (h.names name i).mp hi
    exact hn d (mem_of_getElem? hd) heq
  simp [Progress.find?, hnone]

theorem Means.find?_eq (hp : Means options ds us meaning p) (hq : Means options ds vs meaning q)
    (hperm : us.Perm vs) (name : String) : p.find? name = q.find? name := by
  by_cases h : ∃ d ∈ us, d.name = name
  · obtain ⟨d, hd, rfl⟩ := h
    rw [hp.find? hd, hq.find? (hperm.mem_iff.mp hd)]
  · have hnone : ∀ d ∈ us, d.name ≠ name := fun d hd heq => h ⟨d, hd, heq⟩
    rw [hp.find?_eq_none hnone, hq.find?_eq_none fun d hd => hnone d (hperm.mem_iff.mpr hd)]

theorem Means.diagnostics_perm (hp : Means options ds us meaning p)
    (hq : Means options ds vs meaning q) (hperm : us.Perm vs) :
    p.diagnostics.items.Perm q.diagnostics.items := by
  refine hp.reports.items.trans (.trans ?_ hq.reports.items.symm)
  rw [hp.states, hq.states]
  exact (((hperm.map _).filterMap _).map _).append_left _

theorem Means.verdict (h : Means options ds us meaning p) (hd : d ∈ us) :
    ended (meaning d) = .done ∧ (unitOf options d (meaning d)).valid = true ∨
      ∃ why, ended (meaning d) = .failed why ∧ (unitOf options d (meaning d)).valid = false ∧
        reported ds.source why ∈ p.diagnostics.items := by
  have hreported {why : Diagnostic} (hw : ended (meaning d) = .failed why) :
      reported ds.source why ∈ p.diagnostics.items := by
    refine h.reports.items.mem_iff.mpr (mem_append_right _ (mem_map_of_mem ?_))
    rw [h.states]
    exact mem_filterMap.mpr ⟨_, mem_map_of_mem hd, by rw [hw]; rfl⟩
  have hdecided := h.decided d hd
  revert hreported hdecided
  cases meaning d with
  | ok e => exact fun _ _ => .inl ⟨rfl, rfl⟩
  | error f =>
    intro hreported hdecided
    cases f with
    | failed why => exact .inr ⟨why, rfl, rfl, hreported rfl⟩
    | deferred name span => exact .inr ⟨_, rfl, rfl, hreported rfl⟩
    | internal message => exact absurd rfl (hdecided message)

end Means

/-- Units that differ all wait at first, and the passes end for them. -/
theorem ends_elaborateUnits (options : Options) (ds : Diagnostics) (hdiffer : us.Pairwise Differ) :
    ∃ p todo, AllWait options {} ds us p todo ∧
      Ends options todo.pending p (elaborateUnits options {} ds us) := by
  have hw := allWait_of_differ options ds hdiffer
  refine ⟨_, _, hw, ?_⟩
  rw [elaborateUnits_eq {} ds us hw.aliases_eq]
  exact ends_encodeUnits hw.ready.toAwaits

/-- **The order of declarations does not matter**: if no two units share a name or a symbol,
every name leads to the same unit in the same state, and the same is reported. -/
theorem elaborateUnits_perm (options : Options) (ds : Diagnostics) {us vs : List UnitDecl}
    (hperm : us.Perm vs) (hdiffer : us.Pairwise Differ) :
    (∃ e e', elaborateUnits options {} ds us = .error e ∧ elaborateUnits options {} ds vs = .error e' ∧
        ∃ d ∈ us, ¬ d.IsProduct) ∨
      ∃ p q, elaborateUnits options {} ds us = .ok p ∧ elaborateUnits options {} ds vs = .ok q ∧
        (∀ name, p.find? name = q.find? name) ∧ p.diagnostics.items.Perm q.diagnostics.items ∧
          ∀ d ∈ us, ∃ u state, p.find? d.name = some (u, state) ∧ u.name = d.name ∧
            (state = .done ∧ u.valid = true ∨
              ∃ why, state = .failed why ∧ u.valid = false ∧
                reported ds.source why ∈ p.diagnostics.items) := by
  have hdiffer' : vs.Pairwise Differ :=
    hperm.pairwise hdiffer fun h => ⟨h.1.symm, fun _ ha hb => h.2 hb ha⟩
  obtain ⟨p, todo, hp, hpe⟩ := ends_elaborateUnits options ds hdiffer
  obtain ⟨q, todo', hq, hqe⟩ := ends_elaborateUnits options ds hdiffer'
  have hmem (d : UnitDecl) : d ∈ us ↔ d ∈ vs := hperm.mem_iff
  cases hus : elaborateUnits options {} ds us with
  | error e =>
    rw [hus] at hpe
    cases hvs : elaborateUnits options {} ds vs with
    | error e' =>
      obtain ⟨r, i, d, message, -, hd, he⟩ := hpe
      have hd := mem_of_getElem? ((hp.pending_iff i d).mp hd)
      exact .inl ⟨_, e', rfl, rfl, d, hd, justified_of_encodeUnit he⟩
    | ok q' =>
      rw [hvs] at hqe
      obtain ⟨r, deferred, hstuck, -⟩ := hqe
      exact absurd hpe (not_breaks hp hq hmem hstuck)
  | ok p' =>
    rw [hus] at hpe
    obtain ⟨r, deferred, hstuck, rfl⟩ := hpe
    cases hvs : elaborateUnits options {} ds vs with
    | error e' =>
      rw [hvs] at hqe
      exact absurd hqe (not_breaks hq hp (fun d => (hmem d).symm) hstuck)
    | ok q' =>
      rw [hvs] at hqe
      obtain ⟨r', deferred', hstuck', rfl⟩ := hqe
      have hpm := hstuck.means hp
      have hqm := hstuck'.means hq
      simp only [encodeUnit_alike hp hq hmem hstuck hstuck'] at hqm
      refine .inr ⟨_, _, rfl, rfl, hpm.find?_eq hqm hperm, hpm.diagnostics_perm hqm hperm, ?_⟩
      exact fun d hd => ⟨_, _, hpm.find? hd, name_unitOf .., hpm.verdict hd⟩

theorem elaborateUnits_perm_henAndEgg :
    henAndEgg.Perm henAndEgg.reverse ∧ henAndEgg.Pairwise Differ ∧
      ∃ p q, elaborateUnits {} {} {} henAndEgg = .ok p ∧
        elaborateUnits {} {} {} henAndEgg.reverse = .ok q ∧
        (∀ name, p.find? name = q.find? name) ∧ p.diagnostics.items.Perm q.diagnostics.items ∧
          ∀ d ∈ henAndEgg, ∃ u state, p.find? d.name = some (u, state) ∧ u.name = d.name ∧
            (state = .done ∧ u.valid = true ∨
              ∃ why, state = .failed why ∧ u.valid = false ∧
                reported none why ∈ p.diagnostics.items) := by
  have hdiffer : henAndEgg.Pairwise Differ := by
    simp [henAndEgg, plainDecl, Differ, List.Disjoint]
  have hperm : henAndEgg.Perm henAndEgg.reverse := (reverse_perm _).symm
  refine ⟨hperm, hdiffer, ?_⟩
  rcases elaborateUnits_perm {} {} hperm hdiffer with ⟨-, -, -, -, d, hmem, hd⟩ | h
  · exact absurd (isProduct_henAndEgg d hmem) hd
  · exact h

end Quantity.Elaborate
