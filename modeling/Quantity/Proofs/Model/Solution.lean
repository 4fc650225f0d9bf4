import Quantity.Proofs.Model.Accepted

/-!
# Units without errors

Units are computed in passes over tables that change. What they are in the end can be said
without the passes: `IsSolution` checks a list of units one by one against tables that hold
all of them. The passes end without an error exactly if there is a solution, and then they find
it (`encodeUnits_noErrors`, `IsSolution.exists_encodeUnits`).
-/

namespace Quantity.Elaborate

open Relation List

variable {options : Options} {m : Model} {ds : Diagnostics} {us : List UnitDecl}
  {late : List UnitEntry}

/-! ### Solutions -/

/-- The names and states of the units of a model. -/
def scopeOf (units : List UnitEntry) : Scope := (start { units } {}).toScope

/-- The declaration at one place refers to the one at the other. -/
def Refers (us : List UnitDecl) (k l : Nat) : Prop :=
  ∃ d d', us[k]? = some d ∧ us[l]? = some d' ∧ d'.name ∈ d.references

/-- **The units solve the declarations**: each is what its declaration means where all of them
are known, and no declarations refer to each other in a circle. -/
structure IsSolution (options : Options) (m : Model) (us : List UnitDecl) (late : List UnitEntry) :
    Prop where
  length : late.length = us.length
  meaning : ∀ (k : Nat) (d : UnitDecl), us[k]? = some d → ∃ e,
    encodeUnit (scopeOf (m.units ++ late)) (d.kind.getD options.kind) d = .ok e ∧
      late[k]? = some (complete options d e (fresh options d (redeclares options m d)))
  wellFounded : WellFounded (Function.swap (Refers us))

theorem map_name_eq (hlen : late.length = us.length)
    (h : ∀ (k : Nat) (d : UnitDecl), us[k]? = some d → late[k]?.map (·.name) = some d.name) :
    late.map (·.name) = us.map (·.name) := by
  refine ext_getElem? fun k => ?_
  rw [getElem?_map, getElem?_map]
  cases hk : us[k]? with
  | some d => exact h k d hk
  | none =>
    rw [getElem?_eq_none_iff, ← hlen, ← getElem?_eq_none_iff] at hk
    rw [hk]
    rfl

theorem IsSolution.names (h : IsSolution options m us late) :
    late.map (·.name) = us.map (·.name) := by
  refine map_name_eq h.length fun k d hk => ?_
  obtain ⟨e, -, he⟩ := h.meaning k d hk
  rw [he]
  rfl

theorem IsSolution.valid (h : IsSolution options m us late) : ∀ u ∈ late, u.valid = true := by
  intro u hu
  obtain ⟨k, hk⟩ := mem_iff_getElem?.mp hu
  have hlt := lt_of_getElem? hk
  obtain ⟨e, -, he⟩ := h.meaning k _ (getElem?_eq_getElem (h.length ▸ hlt))
  rw [hk] at he
  cases he
  rfl

/-! ### Names and states -/

section Scope

variable {p q : Progress} {todo : Todo}

theorem nodup_names (h : us.Pairwise Differ) : (us.map (·.name)).Nodup :=
  pairwise_map.mpr (h.imp fun hd => hd.1)

/-- Declarations that differ have the same places in the table as their units in a model. -/
theorem AllWait.get?_names (hp : AllWait options m ds us p todo) (hd : us.Pairwise Differ)
    (hlate : late.map (·.name) = us.map (·.name)) (name : String) :
    p.names.get? name = Model.findUnit? { units := m.units ++ late } name := by
  have hname (k : Nat) : late[k]?.map (·.name) = us[k]?.map (·.name) := by
    rw [← getElem?_map, hlate, getElem?_map]
  rw [Model.findUnit?_append]
  by_cases h : ∃ d ∈ us, d.name = name
  · obtain ⟨d, hmem, rfl⟩ := h
    obtain ⟨k, hk⟩ := mem_iff_getElem?.mp hmem
    have hkn := hname k
    rw [hk, Option.map_some, Option.map_eq_some_iff] at hkn
    obtain ⟨u, hu, hun⟩ := hkn
    have hlast : Model.findUnit? { units := late } d.name = some k := by
      refine Model.getLast?_places_eq hu (decide_eq_true hun) fun j v hv hvn => ?_
      have hj := hname j
      rw [hv, Option.map_some, of_decide_eq_true hvn] at hj
      refine (getElem?_inj ?_ (nodup_names hd)).mp ?_
      · rw [← hlate, length_map]
        exact lt_of_getElem? hv
      · rw [getElem?_map, getElem?_map, ← hj, hk]
        rfl
    rw [hlast, hp.names.late hk (mem_singleton_self _)]
    rfl
  · have hnone : ∀ d ∈ us, d.name ≠ name := fun d hd heq => h ⟨d, hd, heq⟩
    have hlast : Model.findUnit? { units := late } name = none := by
      refine Model.findUnit?_eq_none_iff.mpr fun u hu hun => ?_
      obtain ⟨d, hd, hdn⟩ := mem_map.mp (hlate ▸ mem_map_of_mem hu)
      exact hnone d hd (hdn.trans hun)
    rw [hlast, hp.names.early fun d hd hmem => hnone d hd (mem_singleton.mp hmem).symm]
    rfl

/-- The outcome of passes that found late units. -/
structure Solved (m : Model) (ds : Diagnostics) (late : List UnitEntry) (p q : Progress) : Prop where
  units : q.units = m.units ++ late
  states : q.states = (start m ds).states ++ late.map fun _ => .done
  names : q.names = p.names
  diagnostics : q.diagnostics = ds

theorem states_scopeOf (hvalid : ∀ u ∈ late, u.valid = true) :
    (scopeOf (m.units ++ late)).states = (start m ds).states ++ late.map fun _ => .done := by
  refine map_append.trans (congrArg (_ ++ ·) (map_congr_left fun u hu => ?_))
  rw [hvalid u hu]
  rfl

/-- What is known in the end is what is known in a model with the late units. -/
theorem Solved.lookup (h : Solved m ds late p q) (hp : AllWait options m ds us p todo)
    (hd : us.Pairwise Differ) (hlate : late.map (·.name) = us.map (·.name))
    (hvalid : ∀ u ∈ late, u.valid = true) (name : String) :
    q.lookup name = (scopeOf (m.units ++ late)).lookup name ∧
      q.cause? name = (scopeOf (m.units ++ late)).cause? name := by
  have hnames : q.names.get? name = (scopeOf (m.units ++ late)).names.get? name := by
    rw [h.names, hp.get?_names hd hlate name]
    exact (get?_start_names _ _ name).symm
  have hstates : q.states = (scopeOf (m.units ++ late)).states :=
    h.states.trans (states_scopeOf hvalid).symm
  cases hn : (scopeOf (m.units ++ late)).names.get? name with
  | none => exact Scope.lookup_unknown hn (hnames.trans hn)
  | some i => exact Scope.lookup_congr hn (hnames.trans hn) (by rw [hstates]) (by rw [h.units]; rfl)

end Scope

/-! ### Passes without errors find a solution -/

section Passes

variable {p q r : Progress} {todo : Todo} {deferred : List Deferred}

theorem hasErrors_giveUp (deferred : List Deferred) (p : Progress) :
    (giveUp deferred p).diagnostics.hasErrors =
      (p.diagnostics.hasErrors || !deferred.isEmpty) := by
  induction deferred generalizing p with
  | nil => exact (Bool.or_false _).symm
  | cons y ys ih =>
    refine (ih _).trans ?_
    show ((p.diagnostics.push _).hasErrors || _) = _
    rw [Diagnostics.hasErrors_push]
    exact (Bool.or_assoc _ _ _).trans (congrArg _ (Bool.true_or _))

/-- Without an error, nothing is reported and the units that settle have a meaning. -/
theorem Run.noErrors {todo : List (Nat × UnitDecl)} (h : Run options todo p q)
    (hok : q.diagnostics.hasErrors = false) : q.diagnostics = p.diagnostics ∧
      ∀ i : Nat, p.states[i]? = some .pending →
        q.states[i]? = some .pending ∨ q.states[i]? = some .done := by
  induction h with
  | refl => exact ⟨rfl, fun _ => .inl⟩
  | tail _ hstep ih =>
    obtain ⟨i, d, -, hstep⟩ := hstep
    have helse {j : Nat} (hj : j ≠ i) := (hstep.elsewhere hj).1
    cases hstep with
    | finish hs _ =>
      obtain ⟨hdiag, hstates⟩ := ih hok
      refine ⟨hdiag, fun j hj => ?_⟩
      by_cases hij : j = i
      · subst hij
        exact .inr (List.getElem?_set_self (lt_of_getElem? hs))
      · rw [helse hij]
        exact hstates j hj
    | @fail why _ he =>
      have hwhy : why.isError = true := justified_of_encodeUnit he
      have hok : (Diagnostics.push _ why).hasErrors = false := hok
      rw [Diagnostics.hasErrors_push, hwhy, Bool.or_true] at hok
      cases hok

theorem diagnostics_encodeUnits {todo : List (Nat × UnitDecl)} (hw : Awaits options p todo)
    (hq : encodeUnits options p todo = .ok q) (hok : q.diagnostics.hasErrors = false) :
    q.diagnostics = p.diagnostics := by
  have hends := ends_encodeUnits hw
  rw [hq] at hends
  obtain ⟨r, deferred, hstuck, rfl⟩ := hends
  rw [hasErrors_giveUp, Bool.or_eq_false_iff] at hok
  obtain ⟨hok, hempty⟩ := hok
  obtain rfl : deferred = [] := by simpa using hempty
  exact (hstuck.run.noErrors hok).1

theorem AllWait.early (hp : AllWait options m ds us p todo) (hq : Advances p q)
    (hi : i < m.units.length) :
    q.states[i]? = (start m ds).states[i]? ∧ q.units[i]? = m.units[i]? := by
  have hlen : (start m ds).states.length = m.units.length := length_map ..
  have hs : p.states[i]? = (start m ds).states[i]? := by
    rw [hp.states, getElem?_append_left (hlen.symm ▸ hi)]
  have hu : p.units[i]? = m.units[i]? := by
    rw [hp.units, getElem?_append_left hi]
  have hkeep := hq.settled i (hs ▸ states_start_ne_pending m ds i)
  exact ⟨hkeep.1.trans hs, hkeep.2.trans hu⟩

/-- A progress with late units in their places, all of them done. -/
theorem AllWait.solved (hp : AllWait options m ds us p todo) (hq : Advances p q)
    (hlen : late.length = us.length)
    (hlate : ∀ (k : Nat) (u : UnitEntry), late[k]? = some u →
      q.states[m.units.length + k]? = some .done ∧ q.units[m.units.length + k]? = some u)
    (hdiag : q.diagnostics = ds) : Solved m ds late p q where
  names := hq.names
  diagnostics := hdiag
  units := by
    refine ext_getElem? fun i => ?_
    by_cases hi : i < m.units.length
    · rw [getElem?_append_left hi, (hp.early hq hi).2]
    · obtain ⟨k, rfl⟩ := Nat.exists_eq_add_of_le (Nat.le_of_not_lt hi)
      rw [getElem?_append_right (Nat.le_add_right _ _), Nat.add_sub_cancel_left]
      by_cases hk : k < late.length
      · have hu := getElem?_eq_getElem hk
        rw [hu, (hlate k _ hu).2]
      · rw [getElem?_eq_none (Nat.le_of_not_lt hk), getElem?_eq_none]
        rw [hq.length_units, hp.length]
        omega
  states := by
    have hstart : (start m ds).states.length = m.units.length := length_map ..
    refine ext_getElem? fun i => ?_
    by_cases hi : i < m.units.length
    · rw [getElem?_append_left (hstart.symm ▸ hi), (hp.early hq hi).1]
    · obtain ⟨k, rfl⟩ := Nat.exists_eq_add_of_le (Nat.le_of_not_lt hi)
      rw [← hstart, getElem?_append_right (Nat.le_add_right _ _), Nat.add_sub_cancel_left,
        getElem?_map, hstart]
      by_cases hk : k < late.length
      · have hu := getElem?_eq_getElem hk
        rw [hu, (hlate k _ hu).1]
        rfl
      · rw [getElem?_eq_none (Nat.le_of_not_lt hk), getElem?_eq_none]
        · rfl
        · rw [hq.length, hp.length_states, hp.length]
          omega

/-- Where nothing waits and nothing failed, late units have the meaning of their declarations. -/
theorem Stuck.unit (h : Stuck options todo.pending p r []) (hp : AllWait options m ds us p todo)
    (hok : r.diagnostics.hasErrors = false) (hk : us[k]? = some d) :
    r.states[m.units.length + k]? = some .done ∧
      ∃ e, encodeUnit r.toScope (d.kind.getD options.kind) d = .ok e ∧
        r.units[m.units.length + k]? =
          some (complete options d e (fresh options d (redeclares options m d))) := by
  have hmem : (m.units.length + k, d) ∈ todo.pending := (hp.pending _ d).mpr ⟨k, rfl, hk⟩
  have hdone : r.states[m.units.length + k]? = some .done := by
    refine ((h.run.noErrors hok).2 _ (hp.state hk)).resolve_left fun hpending => ?_
    cases (h.left _ d hmem).mp hpending
  obtain ⟨u, state, v, hu, hs, hv, ho⟩ := faithful_run hp.ready.toAwaits h.run _ d hmem
  rw [hdone] at hs
  cases hs
  rw [hp.unit hk] at hu
  cases hu
  cases ho with
  | done he => exact ⟨hdone, _, he, hv⟩

/-- **Passes that end without an error have found a solution.** -/
theorem Stuck.exists_solution (h : Stuck options todo.pending p r deferred)
    (hp : AllWait options m ds us p todo) (hd : us.Pairwise Differ)
    (hok : (giveUp deferred r).diagnostics.hasErrors = false) :
    ∃ late, IsSolution options m us late ∧ Solved m ds late p (giveUp deferred r) := by
  rw [hasErrors_giveUp, Bool.or_eq_false_iff] at hok
  obtain ⟨hok, hempty⟩ := hok
  obtain rfl : deferred = [] := by simpa using hempty
  have hadv := h.run.advances
  have hlen : (r.units.drop m.units.length).length = us.length := by
    rw [length_drop, hadv.length_units, hp.length, Nat.add_sub_cancel_left]
  have hmeaning {k : Nat} {d : UnitDecl} (hk : us[k]? = some d) : ∃ e,
      encodeUnit r.toScope (d.kind.getD options.kind) d = .ok e ∧
        (r.units.drop m.units.length)[k]? =
          some (complete options d e (fresh options d (redeclares options m d))) := by
    obtain ⟨-, e, he, hu⟩ := h.unit hp hok hk
    exact ⟨e, he, getElem?_drop.trans hu⟩
  have hsolved : Solved m ds (r.units.drop m.units.length) p r := by
    refine hp.solved hadv hlen (fun k u hk => ?_) ((h.run.noErrors hok).1.trans hp.diagnostics)
    have hlt := lt_of_getElem? hk
    rw [getElem?_drop] at hk
    exact ⟨(h.unit hp hok (getElem?_eq_getElem (hlen ▸ hlt))).1, hk⟩
  have hnames := map_name_eq hlen fun k d hk => by
    obtain ⟨e, -, hu⟩ := hmeaning hk
    rw [hu]
    rfl
  have hvalid : ∀ u ∈ r.units.drop m.units.length, u.valid = true := by
    intro u hu
    obtain ⟨k, hk⟩ := mem_iff_getElem?.mp hu
    have hlt := lt_of_getElem? hk
    obtain ⟨e, -, hu⟩ := hmeaning (getElem?_eq_getElem (hlen ▸ hlt))
    rw [hk] at hu
    cases hu
    rfl
  refine ⟨_, ⟨hlen, fun k d hk => ?_, ?_⟩, hsolved⟩
  · obtain ⟨e, he, hu⟩ := hmeaning hk
    refine ⟨e, ?_, hu⟩
    rw [← he]
    exact (encodeUnit_congr (hsolved.lookup hp hd hnames hvalid) _ d).symm
  · refine Subrelation.wf ?_
      (InvImage.wf (m.units.length + ·) (wellFounded_run hp.ready.toAwaits h.run))
    rintro l k ⟨d, d', hk, hl, href⟩
    exact ⟨(h.unit hp hok hk).1, (h.unit hp hok hl).1, d, (hp.pending _ d).mpr ⟨k, rfl, hk⟩,
      d'.name, href, hadv.names ▸ hp.names.late hl (mem_singleton_self _)⟩

theorem encodeUnits_noErrors (hp : AllWait options m ds us p todo) (hd : us.Pairwise Differ)
    (hq : encodeUnits options p todo.pending = .ok q) (hok : q.diagnostics.hasErrors = false) :
    ∃ late, IsSolution options m us late ∧ Solved m ds late p q := by
  have hends := ends_encodeUnits hp.ready.toAwaits
  rw [hq] at hends
  obtain ⟨r, deferred, hstuck, rfl⟩ := hends
  exact hstuck.exists_solution hp hd hok

/-! ### A solution is found -/

/-- As far as the passes have come, they keep to a solution. -/
def Follows (m : Model) (ds : Diagnostics) (late : List UnitEntry) (r : Progress) : Prop :=
  r.diagnostics = ds ∧ ∀ (k : Nat) (u : UnitEntry), late[k]? = some u →
    r.states[m.units.length + k]? = some .pending ∨
      r.states[m.units.length + k]? = some .done ∧ r.units[m.units.length + k]? = some u

variable (hsol : IsSolution options m us late) (hp : AllWait options m ds us p todo)

include hsol hp

section Differ

variable (hd : us.Pairwise Differ)
include hd

theorem Follows.grows (h : Follows m ds late r) (hr : Advances p r) (names : List String) :
    r.toScope.Grows (scopeOf (m.units ++ late)) names := by
  intro name _
  have hnames : (scopeOf (m.units ++ late)).names.get? name = r.names.get? name := by
    rw [hr.names, hp.get?_names hd hsol.names name]
    exact get?_start_names _ _ name
  have hstates : (scopeOf (m.units ++ late)).states =
      (start m ds).states ++ late.map fun _ => .done := states_scopeOf hsol.valid
  have hstart : (start m ds).states.length = m.units.length := length_map ..
  cases hn : r.names.get? name with
  | none => exact .inr (Scope.lookup_unknown hn (hnames.trans hn))
  | some i =>
    by_cases hi : i < m.units.length
    · obtain ⟨hs, hu⟩ := hp.early hr hi
      refine .inr (Scope.lookup_congr hn (hnames.trans hn) ?_ ?_)
      · rw [hstates, getElem?_append_left (hstart.symm ▸ hi), hs]
      · rw [hu]
        exact getElem?_append_left hi
    · have hlt := hp.ready.names_lt name i (hr.names ▸ hn)
      rw [hp.length, ← hsol.length] at hlt
      obtain ⟨k, rfl⟩ := Nat.exists_eq_add_of_le (Nat.le_of_not_lt hi)
      have hk := getElem?_eq_getElem (Nat.lt_of_add_lt_add_left hlt)
      rcases h.2 k _ hk with hs | ⟨hs, hu⟩
      · exact .inl (Scope.lookup_eq_pending hn hs)
      · refine .inr (Scope.lookup_congr hn (hnames.trans hn) ?_ ?_)
        · rw [hstates, hs, ← hstart, getElem?_append_right (Nat.le_add_right _ _),
            Nat.add_sub_cancel_left, getElem?_map, hk]
          rfl
        · rw [hu, ← hk]
          exact (getElem?_append_right (Nat.le_add_right _ _)).trans
            (by rw [Nat.add_sub_cancel_left])

theorem Follows.settles (h : Follows m ds late r) (hrun : Run options todo.pending p r)
    (hmem : (i, d) ∈ todo.pending) (hstep : Settles options i d r q) : Follows m ds late q := by
  obtain ⟨k, rfl, hk⟩ := (hp.pending i d).mp hmem
  obtain ⟨e, he, hlate⟩ := hsol.meaning k d hk
  have hstable : Stable Failure.IsDeferred (encodeUnit r.toScope (d.kind.getD options.kind) d) _ :=
    encodeUnit_stable (h.grows hsol hp hd hrun.advances d.references)
  have helse {l : Nat} (hl : l ≠ k) := hstep.elsewhere (j := m.units.length + l) (by omega)
  cases hstep with
  | fail _ hfail =>
    rw [hstable.eq_error hfail not_false] at he
    cases he
  | finish hs hok =>
    rw [hstable.eq_ok hok] at he
    cases he
    refine ⟨h.1, fun l u hl => ?_⟩
    by_cases hlk : l = k
    · subst hlk
      rw [hlate] at hl
      cases hl
      refine .inr ⟨List.getElem?_set_self (lt_of_getElem? hs), ?_⟩
      -- the unit waited, so it is as it was declared
      obtain ⟨v, state, w, hv, hs', hw, ho⟩ := faithful_run hp.ready.toAwaits hrun _ d hmem
      rw [hs] at hs'
      cases hs'
      rw [hp.unit hk] at hv
      cases hv
      cases ho
      show (r.units.modify _ _)[_]? = _
      rw [getElem?_modify_eq, hw]
      rfl
    · rw [(helse hlk).1, (helse hlk).2]
      exact h.2 l u hl

theorem IsSolution.follows (hrun : Run options todo.pending p r) : Follows m ds late r := by
  induction hrun with
  | refl =>
    refine ⟨hp.diagnostics, fun k u hk => .inl ?_⟩
    have hlt := lt_of_getElem? hk
    exact hp.state (getElem?_eq_getElem (hsol.length ▸ hlt))
  | tail hrun hstep ih =>
    obtain ⟨i, d, hmem, hstep⟩ := hstep
    exact ih.settles hsol hp hd hrun hmem hstep

end Differ

/-- No unit is left over: it would wait for a unit that is left over too, and so on. -/
theorem IsSolution.not_pending (h : Stuck options todo.pending p r deferred) (k : Nat) :
    r.states[m.units.length + k]? ≠ some .pending := by
  induction k using hsol.wellFounded.induction with
  | _ k ih =>
    intro hpending
    obtain ⟨d, hmem⟩ := hp.ready.listed _ (h.run.advances.pending hpending)
    obtain ⟨k', hk', hk⟩ := (hp.pending _ d).mp hmem
    obtain rfl : k = k' := Nat.add_left_cancel hk'
    obtain ⟨y, hy, heq⟩ := mem_map.mp ((h.left _ d hmem).mp hpending)
    have hdecl : y.decl = d := congrArg Prod.snd heq
    subst hdecl
    obtain ⟨hname, hlookup⟩ : y.name ∈ y.decl.references ∧ r.lookup y.name = .pending :=
      justified_of_encodeUnit (h.waits y hy)
    obtain ⟨j, hj, hpending'⟩ := hp.ready.pending_of_lookup h.run.advances hlookup
    rw [h.run.advances.names] at hj
    rcases (hp.names y.name j).mp hj with ⟨l, d', hl, hmem', rfl⟩ | ⟨-, hearly⟩
    · refine ih l ⟨y.decl, d', hk, hl, ?_⟩ hpending'
      rwa [← mem_singleton.mp hmem']
    · have hlt := Model.getLast?_places_lt hearly
      rw [(hp.early h.run.advances hlt).1] at hpending'
      exact states_start_ne_pending m ds j hpending'

/-- **If there is a solution then the passes find it**, without an error. -/
theorem IsSolution.exists_encodeUnits (hd : us.Pairwise Differ) :
    ∃ q, encodeUnits options p todo.pending = .ok q ∧ Solved m ds late p q := by
  have hends := ends_encodeUnits hp.ready.toAwaits
  cases hresult : encodeUnits options p todo.pending with
  | error e =>
    rw [hresult] at hends
    obtain ⟨r, i, d, message, hrun, hmem, he⟩ := hends
    obtain ⟨k, rfl, hk⟩ := (hp.pending i d).mp hmem
    obtain ⟨e, hok, -⟩ := hsol.meaning k d hk
    have hgrows := (hsol.follows hp hd hrun).grows hsol hp hd hrun.advances d.references
    rw [(encodeUnit_stable hgrows).eq_error he not_false] at hok
    cases hok
  | ok q =>
    rw [hresult] at hends
    obtain ⟨r, deferred, hstuck, rfl⟩ := hends
    have hfollows := hsol.follows hp hd hstuck.run
    have hempty : deferred = [] := by
      refine eq_nil_iff_forall_not_mem.mpr fun y hy => ?_
      have hmem := hstuck.sublist.subset (mem_map_of_mem hy)
      obtain ⟨k, hk, -⟩ := (hp.pending _ _).mp hmem
      exact hsol.not_pending hp hstuck k (hk ▸ hstuck.pending hy)
    subst hempty
    refine ⟨r, rfl, hp.solved hstuck.run.advances hsol.length (fun k u hk => ?_) hfollows.1⟩
    exact (hfollows.2 k u hk).resolve_left (hsol.not_pending hp hstuck k)

end Passes

end Quantity.Elaborate
