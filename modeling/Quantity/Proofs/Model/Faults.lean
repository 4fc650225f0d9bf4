import Quantity.Proofs.Declaration.Reported
import Quantity.Proofs.Model.Explained
import Quantity.Proofs.Model.Exposed
import Quantity.Proofs.Model.Order

/-!
# One report for each fault

Whatever is found wrong with the meaning of declarations is reported once: there is one report for
each late unit and each late scale without a meaning, and one for each unit that cannot be related
to the prime of its family, and there is no other. `Accounts` says so of units while they get their
meaning, step by step; `extend_reports` says it of a whole text.
-/

namespace Quantity

open List

namespace Elaborate

variable {options : Options} {m : Model} {ds : Diagnostics} {us : List UnitDecl} {n i : Nat}
  {p q r s : Progress} {todo todo' : Todo} {retired : List Nat} {d : UnitDecl}
  {faults : List (Nat × Diagnostic)} {why : Diagnostic}

/-! ### EntryReports -/

/-- **The reports are those of before and one for each fault**, in this order. A fault is a place
and the reason what is wrong there. -/
structure Ledger (ds ds' : Diagnostics) (faults : List (Nat × Diagnostic)) : Prop where
  source : ds'.source = ds.source
  items : ds'.items = ds.items ++ faults.map (reported ds.source ·.2)
  nodup : (faults.map (·.1)).Nodup

theorem ledger_nil (ds : Diagnostics) : Ledger ds ds [] :=
  ⟨rfl, (append_nil _).symm, nodup_nil⟩

theorem Ledger.push (h : Ledger ds ds' faults) (hi : i ∉ faults.map (·.1)) (why : Diagnostic) :
    Ledger ds (ds'.push why) (faults ++ [(i, why)]) where
  source := h.source
  items := by
    show ds'.items ++ [reported ds'.source why] = _
    rw [h.items, h.source, map_append, List.append_assoc]
    rfl
  nodup := by
    rw [map_append, map_singleton, ← concat_eq_append]
    exact h.nodup.concat hi

/-! ### Units -/

/-- **The reports so far are those of before and one for each late unit that has failed**, about the
declaration of this unit. -/
structure Accounts (n : Nat) (us : List UnitDecl) (ds : Diagnostics) (p : Progress)
    (faults : List (Nat × Diagnostic)) : Prop where
  ledger : Ledger ds p.diagnostics faults
  failed : ∀ i why, (i, why) ∈ faults ↔ n ≤ i ∧ p.states[i]? = some (.failed why)
  tells : ∀ i why, (i, why) ∈ faults →
    ∃ k d, i = n + k ∧ us[k]? = some d ∧ why.IsAbout none d.places

theorem Accounts.congr (h : Accounts n us ds p faults) (hd : q.diagnostics = p.diagnostics)
    (hs : ∀ (i : Nat) why, q.states[i]? = some (.failed why) ↔ p.states[i]? = some (.failed why)) :
    Accounts n us ds q faults where
  ledger := hd ▸ h.ledger
  failed i why := by rw [h.failed i why, hs]
  tells := h.tells

theorem Accounts.not_mem (h : Accounts n us ds p faults) (hs : p.states[i]? = some state)
    (hstate : ∀ why, state ≠ .failed why) : i ∉ faults.map (·.1) := by
  intro hplace
  obtain ⟨⟨j, why⟩, hmem, rfl⟩ := mem_map.mp hplace
  exact hstate why (Option.some.inj (hs.symm.trans ((h.failed j why).mp hmem).2))

/-- **A unit that fails is reported.** -/
theorem Accounts.fail (h : Accounts n us ds p faults) (hs : p.states[n + k]? = some state)
    (hstate : ∀ why, state ≠ .failed why) (hd : us[k]? = some d)
    (habout : why.IsAbout none d.places) :
    Accounts n us ds (p.fail (n + k) why) (faults ++ [(n + k, why)]) where
  ledger := h.ledger.push (h.not_mem hs hstate) why
  failed j why' := by
    show _ ↔ n ≤ j ∧ (p.states.set (n + k) (.failed why))[j]? = _
    rw [mem_append]
    by_cases hj : j = n + k
    · subst hj
      have hold : (n + k, why') ∉ faults :=
        fun hmem => h.not_mem hs hstate (mem_map_of_mem hmem)
      rw [List.getElem?_set_self (lt_of_getElem? hs)]
      simp [hold, eq_comm]
    · rw [getElem?_set_ne (Ne.symm hj), h.failed j why']
      simp [hj]
  tells j why' hmem := by
    rcases mem_append.mp hmem with hmem | hmem
    · exact h.tells j why' hmem
    · cases mem_singleton.mp hmem
      exact ⟨k, d, rfl, hd, habout⟩

/-! ### Declarations -/

theorem accounts_start (us : List UnitDecl) :
    Accounts m.units.length us ds (start m ds) [] where
  ledger := ledger_nil ds
  failed i why := by
    refine iff_of_false nofun ?_
    rintro ⟨hi, hs⟩
    have hlt := lt_of_getElem? hs
    rw [start, length_map] at hlt
    omega
  tells _ _ h := by cases h

/-- One more unit is declared, and it is reported if it is refused. -/
theorem Accounts.declares (h : Accounts n us ds p faults) (hlen : p.states.length = p.units.length)
    (hk : p.units.length = n + k) (hd : us[k]? = some d)
    (hdeclares : Declares options late p todo d q todo') :
    ∃ faults', Accounts n us ds q faults' := by
  have hadd : Accounts n us ds { p with states := p.states ++ [.pending] } faults :=
    h.congr rfl fun i why => by simp [getElem?_append_singleton_iff]
  rcases hdeclares.states with ⟨hs, hdiagnostics, -⟩ | ⟨e, hs, hdiagnostics, -⟩
  · exact ⟨faults, hadd.congr hdiagnostics fun i why => by rw [hs]⟩
  · -- the unit is added, and then it fails
    have hpending : (p.states ++ [UnitState.pending])[n + k]? = some .pending := by
      rw [← hk, ← hlen, getElem?_concat_length]
    have hfail := hadd.fail hpending nofun hd (isAbout_unitError (mem_cons_self ..) e)
    refine ⟨_, hfail.congr hdiagnostics fun i why => ?_⟩
    rw [hs, ← set_concat (hlen.trans hk)]
    rfl

theorem accounts_declareUnits (h : Accounts m.units.length us ds p faults)
    (hd : Declared options m done p todo) (hus : us = done ++ decls) :
    ∃ faults', Accounts m.units.length us ds
      (declareUnits options m.units.length p todo decls).1 faults' := by
  induction decls generalizing done p todo faults with
  | nil => exact ⟨faults, h⟩
  | cons d decls ih =>
    have hdeclares := declares_declareUnit options m.units.length todo d hd.length_states
    have hk : us[done.length]? = some d := by
      rw [hus, getElem?_append_right (Nat.le_refl _), Nat.sub_self]
      rfl
    obtain ⟨faults', h'⟩ := h.declares hd.length_states hd.length_units hk hdeclares
    exact ih h' (hd.concat hdeclares) (hus.trans (append_cons ..))

/-! ### Passes -/

theorem Accounts.settles (h : Accounts n us ds p faults) (hd : us[k]? = some d)
    (hstep : Settles options (n + k) d p q) : ∃ faults', Accounts n us ds q faults' := by
  cases hstep with
  | finish hs _ =>
    refine ⟨faults, h.congr rfl fun j why => ?_⟩
    show (p.states.set (n + k) .done)[j]? = _ ↔ _
    rw [getElem?_set]
    split_ifs with hj hlt
    · subst hj
      simp [hs]
    · exact absurd (lt_of_getElem? hs) hlt
    · rfl
  | fail hs he => exact ⟨_, h.fail hs nofun hd (isAbout_of_encodeUnit he)⟩

/-- The declarations that wait are late ones, each with the place of its unit. -/
def Placed (n : Nat) (us : List UnitDecl) (todo : List (Nat × UnitDecl)) : Prop :=
  ∀ i d, (i, d) ∈ todo → ∃ k, i = n + k ∧ us[k]? = some d

theorem Accounts.run {todo : List (Nat × UnitDecl)} (h : Accounts n us ds p faults)
    (hp : Placed n us todo) (hrun : Run options todo p q) :
    ∃ faults', Accounts n us ds q faults' := by
  induction hrun with
  | refl => exact ⟨faults, h⟩
  | tail _ hstep ih =>
    obtain ⟨i, d, hmem, hstep⟩ := hstep
    obtain ⟨faults', h'⟩ := ih
    obtain ⟨k, rfl, hd⟩ := hp i d hmem
    exact h'.settles hd hstep

theorem Accounts.giveUp (h : Accounts n us ds p faults)
    (hp : Placed n us (deferred.map Deferred.entry))
    (hspan : ∀ y ∈ deferred, y.span ∈ y.decl.places) (hnodup : (deferred.map (·.place)).Nodup)
    (hpending : ∀ y ∈ deferred, p.states[y.place]? = some .pending) :
    ∃ faults', Accounts n us ds (giveUp deferred p) faults' := by
  induction deferred generalizing p faults with
  | nil => exact ⟨faults, h⟩
  | cons y ys ih =>
    rw [map_cons, nodup_cons] at hnodup
    obtain ⟨k, hk, hd⟩ := hp y.place y.decl (mem_cons_self ..)
    have hstate := hpending y (mem_cons_self ..)
    rw [hk] at hstate
    have hfail := h.fail hstate nofun hd
      (isAbout_unitError (hspan y (mem_cons_self ..)) (.unresolved y.name))
    rw [← hk] at hfail
    refine ih hfail ?_ (fun x hx => hspan x (mem_cons_of_mem _ hx)) hnodup.2 fun x hx => ?_
    · exact fun i d hmem => hp i d (mem_cons_of_mem _ hmem)
    · have hne : y.place ≠ x.place := fun heq => hnodup.1 (heq ▸ mem_map_of_mem hx)
      exact (getElem?_set_ne hne).trans (hpending x (mem_cons_of_mem _ hx))

/-! ### Comparisons -/

/-- The unit is that of the declaration. -/
def IsUnitOf (d : UnitDecl) (u : UnitEntry) : Prop := u.name = d.name ∧ u.origin = .declared d.span

/-- The late units are those of the declarations. -/
def Labelled (n : Nat) (us : List UnitDecl) (units : List UnitEntry) : Prop :=
  ∀ k u, units[n + k]? = some u → ∃ d, us[k]? = some d ∧ IsUnitOf d u

theorem Labelled.modify (h : Labelled n us units) (i : Nat) {f : UnitEntry → UnitEntry}
    (hf : ∀ u, (f u).name = u.name ∧ (f u).origin = u.origin) :
    Labelled n us (units.modify i f) := by
  intro k v hv
  rw [getElem?_modify, Option.map_eq_map, Option.map_eq_some_iff] at hv
  obtain ⟨u, hu, rfl⟩ := hv
  obtain ⟨d, hd, hunit⟩ := h k u hu
  refine ⟨d, hd, ?_⟩
  split_ifs
  · exact ⟨(hf u).1.trans hunit.1, (hf u).2.trans hunit.2⟩
  · exact hunit

/-- **A late unit that is compared and differs is reported**, and one that agrees is not. -/
theorem accounts_resolveAliases (h : Accounts n us ds p faults) (hl : Labelled n us p.units)
    (haliases : ∀ a ∈ aliases, n ≤ a.1) :
    ∃ faults', Accounts n us ds (resolveAliases p removed aliases).1 faults' := by
  fun_induction resolveAliases p removed aliases generalizing faults with
  | case1 p removed => exact ⟨faults, h⟩
  | case2 p removed i previous more late early _ _ _ _ ih =>
    exact ih (h.congr rfl fun _ _ => Iff.rfl) hl (forall_mem_cons.mp haliases).2
  | case3 p removed i previous more late early _ hlate hdone _ why =>
    rename_i ih
    obtain ⟨hi, hmore⟩ := forall_mem_cons.mp haliases
    obtain ⟨k, rfl⟩ := Nat.exists_eq_add_of_le hi
    obtain ⟨d, hd, -, horigin⟩ := hl k late hlate
    have habout : why.IsAbout none d.places := by
      refine isAbout_unitError ?_ _
      rw [horigin]
      exact mem_cons_self ..
    have hcongr : Accounts n us ds (p.modifyUnit (n + k) fun u => { u with valid := false })
        faults := h.congr rfl fun _ _ => Iff.rfl
    exact ih (hcongr.fail (getElem?_of_state_done hdone) (by simp) hd habout)
      (hl.modify _ fun _ => ⟨rfl, rfl⟩) hmore
  | case4 p removed i previous more _ ih =>
    exact ih h hl (forall_mem_cons.mp haliases).2

section Stages

variable (h : Stages options m us q todo s retired r)

include h

theorem Stages.not_mem_of_failed (hs : s.states[i]? = some (.failed why)) : i ∉ retired := by
  intro hmem
  obtain ⟨j, hj, hretires⟩ := (h.compared.mem i).mp hmem
  have hkept : s.states[i]? = q.states[i]? := by
    refine (h.compared.kept i fun k hk hclash => ?_).2
    have heq := inj_on_of_nodup_map h.tables.claims.nodup hj hk rfl
    exact hclash.not_retires (heq ▸ hretires)
  rw [hs, getElem?_of_state_done hretires.1] at hkept
  cases hkept

theorem Stages.renumber_inj (hi : i ∉ retired) (hj : j ∉ retired)
    (heq : renumber retired i = renumber retired j) : i = j := by
  rcases Nat.lt_trichotomy i j with hlt | heq' | hlt
  · have := renumber_lt h.nodup hi hlt
    omega
  · exact heq'
  · have := renumber_lt h.nodup hj hlt
    omega

/-- The units of the declarations, before aliases are removed. -/
theorem Stages.isUnitOf_passed (hd : us[k]? = some d) :
    ∃ u, q.units[m.units.length + k]? = some u ∧ IsUnitOf d u := by
  obtain ⟨p, r', deferred, hdeclared, hstuck, rfl⟩ := h.passes
  obtain ⟨redeclared, ⟨-, ⟨e, -, -, hu⟩ | ⟨-, -, hu⟩⟩ | ⟨-, -, hu⟩⟩ := hstuck.late hdeclared hd
  · exact ⟨_, hu, rfl, rfl⟩
  · exact ⟨_, hu, rfl, rfl⟩
  · exact ⟨_, hu, rfl, rfl⟩

theorem Stages.isUnitOf_compared (hd : us[k]? = some d) :
    ∃ u, s.units[m.units.length + k]? = some u ∧ IsUnitOf d u := by
  obtain ⟨u, hu, hunit⟩ := h.isUnitOf_passed hd
  rcases h.compared.unit_cases hu with ⟨-, hs⟩ | ⟨_, -, -, hs⟩
  · exact ⟨u, hs, hunit⟩
  · exact ⟨_, hs, hunit⟩

/-- There are no late units but those of the declarations. -/
theorem Stages.exists_decl (hu : q.units[m.units.length + k]? = some u) :
    ∃ d, us[k]? = some d ∧ IsUnitOf d u := by
  obtain ⟨p, r', deferred, hdeclared, hstuck, rfl⟩ := h.passes
  have hlt := lt_of_getElem? hu
  rw [(hstuck.isFixedPoint hdeclared).length] at hlt
  have hd := getElem?_eq_getElem (Nat.lt_of_add_lt_add_left hlt)
  obtain ⟨v, hv, hunit⟩ := h.isUnitOf_passed hd
  rw [hu] at hv
  cases hv
  exact ⟨_, hd, hunit⟩

/-- Late units have failed if they have no meaning. -/
theorem Stages.invalid_iff (hk : m.units.length ≤ k) (hu : r.units[k]? = some u) :
    u.valid = false ↔ ∃ why, r.states[k]? = some (.failed why) := by
  obtain ⟨i, v, -, rfl, hv, ⟨rfl, hs⟩ | ⟨rfl, hfailed⟩⟩ := h.left_cases hu
  · obtain ⟨p, r', deferred, hdeclared, hstuck, rfl⟩ := h.passes
    rw [hs]
    rcases (hstuck.isFixedPoint hdeclared).states i u (h.le_renumber.mp hk) hv with
      ⟨hdone, hvalid⟩ | ⟨hfailed, hvalid⟩
    · simp [hdone, hvalid]
    · exact iff_of_true hvalid hfailed
  · exact iff_of_true rfl hfailed

end Stages

/-! ### Entries and their reports -/

section Reports

variable {α δ : Type} {valid : α → Bool} {isOf : δ → α → Prop} {places : δ → List Span}
  {decls : List δ} {ds' : Diagnostics} {xs : List α} {x : α} {d : δ}

/-- **The reports are those of before and one for each late entry without a meaning**, about the
declaration of the entry. -/
structure EntryReports (valid : α → Bool) (isOf : δ → α → Prop) (places : δ → List Span) (n : Nat)
    (decls : List δ) (ds ds' : Diagnostics) (xs : List α) (faults : List (Nat × Diagnostic)) :
    Prop where
  ledger : Ledger ds ds' faults
  invalid : ∀ i, i ∈ faults.map (·.1) ↔ n ≤ i ∧ ∃ x, xs[i]? = some x ∧ valid x = false
  tells : ∀ i why, (i, why) ∈ faults →
    ∃ d ∈ decls, (∃ x, xs[i]? = some x ∧ isOf d x) ∧ why.IsAbout none (places d)

theorem EntryReports.add (h : EntryReports valid isOf places n decls ds ds' xs faults)
    (hvalid : valid x = true) : EntryReports valid isOf places n decls ds ds' (xs ++ [x]) faults where
  ledger := h.ledger
  invalid i := by
    rw [h.invalid i]
    refine and_congr_right fun _ => exists_congr fun y => ?_
    rw [getElem?_append_singleton_iff]
    constructor
    · exact fun ⟨hy, hinvalid⟩ => ⟨.inl hy, hinvalid⟩
    · rintro ⟨hy | ⟨-, rfl⟩, hinvalid⟩
      · exact ⟨hy, hinvalid⟩
      · rw [hvalid] at hinvalid
        cases hinvalid
  tells i why hmem := by
    obtain ⟨d, hd, ⟨y, hy, hof⟩, habout⟩ := h.tells i why hmem
    exact ⟨d, hd, ⟨y, getElem?_append_singleton_iff.mpr (.inl hy), hof⟩, habout⟩

theorem EntryReports.fail (h : EntryReports valid isOf places n decls ds ds' xs faults)
    (hn : n ≤ xs.length) (hvalid : valid x = false) (hmem : d ∈ decls) (hof : isOf d x)
    (habout : why.IsAbout none (places d)) :
    EntryReports valid isOf places n decls ds (ds'.push why) (xs ++ [x])
      (faults ++ [(xs.length, why)]) where
  ledger := by
    refine h.ledger.push (fun hfault => ?_) why
    obtain ⟨-, y, hy, -⟩ := (h.invalid _).mp hfault
    exact Nat.lt_irrefl _ (lt_of_getElem? hy)
  invalid i := by
    rw [map_append, mem_append, h.invalid i, map_singleton, mem_singleton]
    constructor
    · rintro (⟨hi, y, hy, hinvalid⟩ | rfl)
      · exact ⟨hi, y, getElem?_append_singleton_iff.mpr (.inl hy), hinvalid⟩
      · exact ⟨hn, x, getElem?_concat_length .., hvalid⟩
    · rintro ⟨hi, y, hy, hinvalid⟩
      rcases getElem?_append_singleton_iff.mp hy with hy | ⟨rfl, -⟩
      · exact .inl ⟨hi, y, hy, hinvalid⟩
      · exact .inr rfl
  tells i why' hmem' := by
    rcases mem_append.mp hmem' with hmem' | hmem'
    · obtain ⟨d, hd, ⟨y, hy, hof⟩, habout⟩ := h.tells i why' hmem'
      exact ⟨d, hd, ⟨y, getElem?_append_singleton_iff.mpr (.inl hy), hof⟩, habout⟩
    · cases mem_singleton.mp hmem'
      exact ⟨d, hmem, ⟨x, getElem?_concat_length .., hof⟩, habout⟩

/-- The reports depend on no more than is compared. -/
theorem EntryReports.congr {g : α → β} (h : EntryReports valid isOf places n decls ds ds' xs faults)
    (hmap : ys.map g = xs.map g) (hvalid : ∀ x y, g y = g x → valid y = valid x)
    (hof : ∀ d x y, g y = g x → isOf d x → isOf d y) :
    EntryReports valid isOf places n decls ds ds' ys faults where
  ledger := h.ledger
  invalid i := by
    rw [h.invalid i]
    refine and_congr_right fun _ => ⟨?_, ?_⟩
    · rintro ⟨x, hx, hinvalid⟩
      obtain ⟨y, hy, heq⟩ := Model.exists_getElem?_of_map_eq hmap.symm hx
      exact ⟨y, hy, (hvalid x y heq).trans hinvalid⟩
    · rintro ⟨y, hy, hinvalid⟩
      obtain ⟨x, hx, heq⟩ := Model.exists_getElem?_of_map_eq hmap hy
      exact ⟨x, hx, (hvalid y x heq).trans hinvalid⟩
  tells i why hmem := by
    obtain ⟨d, hd, ⟨x, hx, hof'⟩, habout⟩ := h.tells i why hmem
    obtain ⟨y, hy, heq⟩ := Model.exists_getElem?_of_map_eq hmap.symm hx
    exact ⟨d, hd, ⟨y, hy, hof d x y heq hof'⟩, habout⟩

end Reports

/-- The reports about units. -/
abbrev UnitReports := EntryReports UnitEntry.valid IsUnitOf UnitDecl.places

/-- **Removing units leaves the faults**, which are at other places then. -/
theorem Stages.reports (h : Stages options m us q todo s retired r)
    (ha : Accounts m.units.length us ds s faults) :
    UnitReports m.units.length us ds r.diagnostics r.units
      (faults.map fun x => (renumber retired x.1, x.2)) := by
  have hstays (x : Nat × Diagnostic) (hx : x ∈ faults) : x.1 ∉ retired :=
    h.not_mem_of_failed ((ha.failed x.1 x.2).mp hx).2
  have hunits {i : Nat} (hi : i ∉ retired) : r.units[renumber retired i]? = s.units[i]? := by
    rw [h.removed]
    exact getElem?_without_renumber h.nodup hi
  have hstates {i : Nat} (hi : i ∉ retired) : r.states[renumber retired i]? = s.states[i]? := by
    rw [h.removed]
    exact getElem?_without_renumber h.nodup hi
  have htells (x : Nat × Diagnostic) (hx : x ∈ faults) : ∃ d ∈ us,
      (∃ u, r.units[renumber retired x.1]? = some u ∧ IsUnitOf d u) ∧ x.2.IsAbout none d.places := by
    obtain ⟨k, d, hk, hd, habout⟩ := ha.tells x.1 x.2 hx
    rw [hunits (hstays x hx), hk]
    exact ⟨d, mem_of_getElem? hd, h.isUnitOf_compared hd, habout⟩
  constructor
  case ledger =>
    refine ⟨?_, ?_, ?_⟩
    · rw [h.removed]
      exact ha.ledger.source
    · rw [h.removed, map_map]
      exact ha.ledger.items
    · rw [map_map]
      refine Nodup.map_on (fun x hx y hy heq => ?_) ha.ledger.nodup.of_map
      exact inj_on_of_nodup_map ha.ledger.nodup hx hy
        (h.renumber_inj (hstays x hx) (hstays y hy) heq)
  case invalid =>
    intro i
    rw [map_map]
    constructor
    · intro hfault
      obtain ⟨x, hx, rfl⟩ := mem_map.mp hfault
      obtain ⟨hi, hs⟩ := (ha.failed x.1 x.2).mp hx
      obtain ⟨d, -, ⟨u, hu, -⟩, -⟩ := htells x hx
      have hi' := h.le_renumber.mpr hi
      exact ⟨hi', u, hu, (h.invalid_iff hi' hu).mpr ⟨x.2, (hstates (hstays x hx)).trans hs⟩⟩
    · rintro ⟨hi, u, hu, hvalid⟩
      obtain ⟨why, hs⟩ := (h.invalid_iff hi hu).mp hvalid
      rw [h.removed] at hs
      obtain ⟨j, -, rfl, hj⟩ := exists_of_getElem?_without h.nodup hs
      exact mem_map.mpr ⟨(j, why), (ha.failed j why).mpr ⟨h.le_renumber.mp hi, hj⟩, rfl⟩
  case tells =>
    intro i why hfault
    obtain ⟨x, hx, heq⟩ := mem_map.mp hfault
    cases heq
    exact htells x hx

/-- **One report for each late unit without a meaning.** -/
theorem exists_unitReports (hlate : m.lateUnits = m.units.length)
    (h : elaborateUnits options m ds us = .ok r) :
    ∃ faults, UnitReports m.units.length us ds r.diagnostics r.units faults := by
  obtain ⟨r', deferred, retired, hstuck, hstages⟩ := exists_passes hlate h
  have hd := declared_declareUnits m.units.length us (declared_start options m ds)
  obtain ⟨_, hdeclared⟩ := accounts_declareUnits (accounts_start us) (declared_start options m ds) rfl
  have hplaced : Placed m.units.length us _ := fun i d hmem => (hd.pending i d hmem).2
  obtain ⟨_, hrun⟩ := hdeclared.run hplaced hstuck.run
  obtain ⟨_, hgiven⟩ := hrun.giveUp (fun i d hmem => hplaced i d (hstuck.sublist.subset hmem))
    (fun y hy => isAbout_of_encodeUnit (hstuck.waits y hy))
    (hstuck.nodup_places hd.ready.toAwaits) fun y hy => hstuck.pending hy
  obtain ⟨_, hcompared⟩ := accounts_resolveAliases hgiven (fun _ _ => hstages.exists_decl)
    hd.late_aliases
  exact ⟨_, hstages.reports hcompared⟩

/-! ### Scales -/

/-- The scale is that of the declaration. -/
def IsScaleFor (d : ScaleDecl) (t : ScaleEntry) : Prop :=
  t.name = d.name ∧ t.origin = .declared d.span

/-- The reports about scales. -/
abbrev ScaleReports := EntryReports ScaleEntry.valid IsScaleFor ScaleDecl.places

/-- **One report for each late scale without a meaning.** -/
theorem scaleReports_declareScales {x : ScaleProgress} {decls : List ScaleDecl} (options : Options)
    (lateUnits lateScales : Nat) (scope : Scope) (hn : n ≤ x.scales.length)
    (h : ScaleReports n decls ds x.diagnostics x.scales faults) (hsub : more ⊆ decls) :
    ∃ faults', ScaleReports n decls ds
      (more.foldl (declareScale options lateUnits lateScales scope) x).diagnostics
      (more.foldl (declareScale options lateUnits lateScales scope) x).scales faults' := by
  induction more generalizing x faults with
  | nil => exact ⟨faults, h⟩
  | cons d more ih =>
    suffices hstep : ∃ t faults', (declareScale options lateUnits lateScales scope x d).scales =
        x.scales ++ [t] ∧ ScaleReports n decls ds
          (declareScale options lateUnits lateScales scope x d).diagnostics (x.scales ++ [t])
          faults' by
      obtain ⟨t, faults', hscales, hstep⟩ := hstep
      refine ih ?_ (hscales ▸ hstep) fun _ hd => hsub (mem_cons_of_mem _ hd)
      rw [hscales, length_append]
      exact Nat.le_add_right_of_le hn
    rcases declareScale_cases options lateUnits lateScales scope x d with
      ⟨t, -, ht, hscales, hd⟩ | ⟨why, hwhy, hscales, hd⟩
    · refine ⟨t, faults, hscales, hd ▸ h.add ?_⟩
      obtain ⟨i, u, offset, -, -, -, -, rfl⟩ := encodeScale_eq_ok_iff.mp ht
      rfl
    · have habout := hwhy.elim isAbout_of_scaleNameError? isAbout_of_encodeScale
      exact ⟨_, _, hscales, hd ▸ h.fail hn rfl (hsub (mem_cons_self ..)) ⟨rfl, rfl⟩ habout⟩

/-! ### Declarations and entries -/

/-- **The declaration is an alias**: what it means agrees with the earlier unit of its name. -/
def IsAlias (options : Options) (m : Model) (d : UnitDecl) : Prop :=
  options.redeclaration = .sameUnit ∧ ∃ j early late, m.findUnit? d.name = some j ∧
    m.units[j]? = some early ∧ IsUnitOf d late ∧ late.valid = true ∧ agree late early = true

theorem without_append_late {α : Type} {xs : List α} {removed : List Nat}
    (h : ∀ i ∈ removed, xs.length ≤ i) (ys : List α) :
    without removed (xs ++ ys) = xs ++ without (removed.map (· - xs.length)) ys := by
  induction ys using List.reverseRecOn with
  | nil => exact without_append (f := fun _ => true) h nofun
  | append_singleton ys y ih =>
    have hmem : (xs ++ ys).length ∈ removed ↔ ys.length ∈ removed.map (· - xs.length) := by
      rw [length_append, mem_map]
      constructor
      · exact fun hi => ⟨_, hi, Nat.add_sub_cancel_left ..⟩
      · rintro ⟨i, hi, heq⟩
        have hle := h i hi
        rwa [show xs.length + ys.length = i by omega]
    rw [← List.append_assoc, without_append_singleton, without_append_singleton, ih,
      List.append_assoc, if_congr hmem rfl rfl]

section Stages

variable (h : Stages options m us q todo s retired r)

include h

/-- **The late units are those of the declarations in order, without the aliases.** -/
theorem Stages.map_units :
    r.units.map (fun u => (u.name, u.origin)) = m.units.map (fun u => (u.name, u.origin)) ++
      (without (retired.map (· - m.units.length)) us).map fun d => (d.name, .declared d.span) := by
  have hcompared : s.units.map (fun u => (u.name, u.origin)) =
      m.units.map (fun u => (u.name, u.origin)) ++ us.map fun d => (d.name, .declared d.span) := by
    refine ext_getElem? fun i => ?_
    rw [getElem?_map]
    rcases Nat.lt_or_ge i m.units.length with hi | hi
    · rw [getElem?_append_left (by simpa using hi), getElem?_map, h.early_compared hi]
    · obtain ⟨k, rfl⟩ := Nat.exists_eq_add_of_le hi
      rw [getElem?_append_right (by simp), length_map, Nat.add_sub_cancel_left, getElem?_map]
      cases hd : us[k]? with
      | some d =>
        obtain ⟨u, hu, hname, horigin⟩ := h.isUnitOf_compared hd
        rw [hu, Option.map_some, Option.map_some, hname, horigin]
      | none =>
        cases hs : s.units[m.units.length + k]? with
        | none => rfl
        | some v =>
          obtain ⟨u, hu⟩ := h.compared.exists_unit hs
          obtain ⟨d, hd', -⟩ := h.exists_decl hu
          rw [hd] at hd'
          cases hd'
  have hremoved : r.units = without retired s.units := by
    rw [h.removed]
    rfl
  rw [hremoved, ← without_map, hcompared, without_append_late, length_map, without_map]
  rw [length_map]
  exact fun i => h.le_of_mem

/-- What is removed is an alias. -/
theorem Stages.isAlias (hk : k ∈ retired.map (· - m.units.length)) :
    ∃ d, us[k]? = some d ∧ IsAlias options m d := by
  obtain ⟨i, hi, rfl⟩ := mem_map.mp hk
  obtain ⟨k, rfl⟩ := Nat.exists_eq_add_of_le (h.le_of_mem hi)
  obtain ⟨j, hmem, hdone, late, early, hlate, hearly, hagree⟩ := (h.compared.mem _).mp hi
  obtain ⟨hpolicy, -⟩ := (h.tables.claims.mem _ j).mp hmem
  have hfind := h.tables.comparable.known _ j late hmem hlate
  obtain ⟨d, hd, hunit⟩ := h.exists_decl hlate
  rw [Nat.add_sub_cancel_left]
  refine ⟨d, hd, hpolicy, j, early, late, hunit.1 ▸ hfind, ?_, hunit, ?_, hagree⟩
  · rw [← h.early_passes (Model.getLast?_places_lt hfind)]
    exact hearly
  · exact h.valid_of_done hlate (getElem?_of_state_done hdone)

end Stages

end Elaborate

end Quantity
