import Quantity.Proofs.Model.Solution

/-!
# Names that are reused for the same unit

Where a late unit may stand for an earlier one of its name, the two are compared and the late
one is removed. `elaborateUnits_noErrors` and `Fitting.exists_elaborateUnits` say together which
declarations of units get a meaning without an error, and what a model holds then.
-/

namespace Quantity

open List

/-- Two scopes that know the same units by the same names. -/
structure Scope.Alike (s t : Scope) : Prop where
  units : s.units = t.units
  states : s.states = t.states
  names : ∀ name, s.names.get? name = t.names.get? name

theorem Scope.Alike.lookup {s t : Scope} (h : s.Alike t) (name : String) :
    s.lookup name = t.lookup name ∧ s.cause? name = t.cause? name := by
  cases hn : t.names.get? name with
  | none => exact lookup_unknown hn ((h.names name).trans hn)
  | some i => exact lookup_congr hn ((h.names name).trans hn) (by rw [h.states]) (by rw [h.units])

theorem Table.get?_map (t : Table) (f : Nat → Nat) (key : String) :
    (t.map f).get? key = (t.get? key).map f := by
  unfold map get?
  rw [find?_map, Option.map_map, Option.map_map]
  rfl

theorem Table.get?_foldl_insert {α : Type} {known : String → Option Nat} {key : α → String}
    {value : α → Nat} {xs : List α} (t : Table) (h : ∀ x ∈ xs, known (key x) = some (value x))
    (name : String) :
    (xs.foldl (fun t x => t.insert (key x) (value x)) t).get? name =
      if name ∈ xs.map key then known name else t.get? name := by
  induction xs generalizing t with
  | nil => rfl
  | cons x xs ih =>
    obtain ⟨hx, hxs⟩ := forall_mem_cons.mp h
    rw [foldl_cons, ih _ hxs, get?_insert, map_cons]
    by_cases hmem : name ∈ xs.map key
    · rw [if_pos hmem, if_pos (mem_cons_of_mem _ hmem)]
    · by_cases hname : key x = name
      · subst hname
        rw [if_neg hmem, if_pos rfl, if_pos (mem_cons_self ..), hx]
      · rw [if_neg hmem, if_neg hname, if_neg]
        rw [mem_cons, not_or]
        exact ⟨Ne.symm hname, hmem⟩

namespace Elaborate

/-! ### Removal -/

section Removal

variable {α : Type} {removed : List Nat}

theorem countP_lt_succ (hnodup : removed.Nodup) (n : Nat) :
    removed.countP (· < n + 1) = removed.countP (· < n) + if n ∈ removed then 1 else 0 := by
  induction removed with
  | nil => rfl
  | cons i removed ih =>
    obtain ⟨hi, hnodup⟩ := nodup_cons.mp hnodup
    rw [countP_cons, countP_cons, ih hnodup]
    by_cases hn : i = n
    · subst hn
      simp [hi]
    · have : i < n + 1 ↔ i < n := by omega
      simp only [this, mem_cons, Ne.symm hn, false_or]
      omega

theorem without_append_singleton (xs : List α) (x : α) :
    without removed (xs ++ [x]) =
      without removed xs ++ if xs.length ∈ removed then [] else [x] := by
  unfold without
  rw [zipIdx_append]
  by_cases h : xs.length ∈ removed <;> simp [h]

theorem length_without (hnodup : removed.Nodup) (xs : List α) :
    (without removed xs).length + removed.countP (· < xs.length) = xs.length := by
  induction xs using List.reverseRecOn with
  | nil => simp [without]
  | append_singleton xs x ih =>
    rw [without_append_singleton, length_append, length_append, length_singleton,
      countP_lt_succ hnodup]
    split_ifs <;> simp <;> omega

theorem places_without (hnodup : removed.Nodup) (xs : List α) (f : α → Bool) :
    Model.places (without removed xs) f =
      ((Model.places xs f).filter (· ∉ removed)).map (renumber removed) := by
  induction xs using List.reverseRecOn with
  | nil => rfl
  | append_singleton xs x ih =>
    have hlen := length_without hnodup xs
    rw [without_append_singleton, Model.places_append_singleton, filter_append,
      map_append, ← ih]
    by_cases hmem : xs.length ∈ removed
    · by_cases hf : f x <;> simp [hmem]
    · rw [if_neg hmem, Model.places_append_singleton]
      by_cases hf : f x
      · have : (without removed xs).length = renumber removed xs.length := by
          unfold renumber
          omega
        simp [hmem, hf, this]
      · simp [hf]

theorem without_append (hxs : ∀ i ∈ removed, xs.length ≤ i)
    (hys : ∀ (k : Nat) (y : α), ys[k]? = some y → (xs.length + k ∈ removed ↔ f y = false)) :
    without removed (xs ++ ys) = xs ++ ys.filter f := by
  induction ys using List.reverseRecOn with
  | nil =>
    rw [filter_nil, append_nil]
    induction xs using List.reverseRecOn with
    | nil => rfl
    | append_singleton xs x ih =>
      have hle : ∀ i ∈ removed, xs.length + 1 ≤ i := fun i hi => by simpa using hxs i hi
      rw [without_append_singleton, if_neg fun hmem => Nat.not_succ_le_self _ (hle _ hmem),
        ih (fun i hi => Nat.le_of_succ_le (hle i hi)) nofun]
  | append_singleton ys y ih =>
    have hy := hys ys.length y (getElem?_concat_length ..)
    rw [← List.append_assoc, without_append_singleton,
      ih fun k y' hk => hys k y' (getElem?_append_singleton_iff.mpr (.inl hk))]
    by_cases hf : f y <;> simp [hf, hy]

theorem without_map (g : α → β) (xs : List α) :
    without removed (xs.map g) = (without removed xs).map g := by
  induction xs using List.reverseRecOn with
  | nil => rfl
  | append_singleton xs x ih =>
    rw [map_append, map_singleton, without_append_singleton, without_append_singleton,
      ih, map_append, length_map]
    split_ifs <;> rfl

end Removal

/-! ### Comparison -/

section Comparison

variable {p : Progress} {removed : List Nat} {aliases : List (Nat × Nat)}

/-- A late unit that is done agrees with an earlier one. -/
def Same (p : Progress) (a : Nat × Nat) : Prop :=
  ∃ late early, p.units[a.1]? = some late ∧ p.units[a.2]? = some early ∧
    agree late early = true

/-- The names of late units lead to the earlier ones. -/
def rename (p : Progress) (aliases : List (Nat × Nat)) : Progress :=
  { p with names := aliases.foldl (fun t a => t.insert (p.nameOf a.1) a.2) p.names }

theorem get?_rename {known : String → Option Nat}
    (h : ∀ a ∈ aliases, known (p.nameOf a.1) = some a.2) (name : String) :
    (rename p aliases).names.get? name =
      if name ∈ aliases.map (p.nameOf ·.1) then known name else p.names.get? name :=
  Table.get?_foldl_insert p.names h name

theorem hasErrors_resolveAliases (h : p.diagnostics.hasErrors = true) :
    (resolveAliases p removed aliases).1.diagnostics.hasErrors = true := by
  induction aliases generalizing p removed with
  | nil => exact h
  | cons a aliases ih =>
    unfold resolveAliases
    split
    · split_ifs
      · exact ih h
      · refine ih ?_
        show (p.diagnostics.push _).hasErrors = true
        rw [Diagnostics.hasErrors_push, h, Bool.true_or]
    · exact ih h

/-- **Late units that agree with the earlier ones are removed**; if one of them does not agree,
an error is reported. -/
theorem resolveAliases_cases (hdone : ∀ a ∈ aliases, p.state a.1 = .done)
    (hunits : ∀ a ∈ aliases, ∃ late early, p.units[a.1]? = some late ∧ p.units[a.2]? = some early) :
    ((∀ a ∈ aliases, Same p a) ∧
        resolveAliases p removed aliases = (rename p aliases, removed ++ aliases.map (·.1))) ∨
      (¬ ∀ a ∈ aliases, Same p a) ∧
        (resolveAliases p removed aliases).1.diagnostics.hasErrors = true := by
  induction aliases generalizing p removed with
  | nil => exact .inl ⟨nofun, by simp [resolveAliases, rename]⟩
  | cons a aliases ih =>
    obtain ⟨i, previous⟩ := a
    obtain ⟨hdone, hdones⟩ := forall_mem_cons.mp hdone
    obtain ⟨⟨late, early, hlate, hearly⟩, hunits⟩ := forall_mem_cons.mp hunits
    unfold resolveAliases
    rw [hdone, hlate, hearly]
    dsimp only
    split_ifs with hagree
    · have hsame : Same p (i, previous) := ⟨late, early, hlate, hearly, hagree⟩
      have hname : p.nameOf i = late.name := by
        unfold Progress.nameOf
        rw [hlate]
        rfl
      rcases @ih { p with names := p.names.insert late.name previous } (removed ++ [i]) hdones
          hunits with ⟨hall, heq⟩ | ⟨hnot, herr⟩
      · refine .inl ⟨forall_mem_cons.mpr ⟨hsame, hall⟩, ?_⟩
        unfold rename
        rw [heq, foldl_cons, hname, List.append_assoc]
        rfl
      · exact .inr ⟨fun hall => hnot (forall_mem_cons.mp hall).2, herr⟩
    · refine .inr ⟨fun hall => hagree ?_, hasErrors_resolveAliases ?_⟩
      · obtain ⟨late', early', hlate', hearly', hagree'⟩ := (forall_mem_cons.mp hall).1
        rw [hlate] at hlate'
        rw [hearly] at hearly'
        cases hlate'
        cases hearly'
        exact hagree'
      · show (p.diagnostics.push _).hasErrors = true
        rw [Diagnostics.hasErrors_push]
        exact Bool.or_true _

end Comparison

/-! ### Units without errors -/

section Units

variable {options : Options} {m : Model} {ds : Diagnostics} {us : List UnitDecl}
  {late : List UnitEntry} {p q : Progress} {todo : Todo}

theorem mem_aliasesOf :
    a ∈ aliasesOf options m us ↔ options.redeclaration = .sameUnit ∧
      ∃ k d, us[k]? = some d ∧ a.1 = m.units.length + k ∧ m.findUnit? d.name = some a.2 := by
  unfold aliasesOf
  split_ifs with hpolicy
  · rw [mem_filterMap]
    refine Iff.trans ?_ (and_iff_right hpolicy).symm
    constructor
    · rintro ⟨⟨d, k⟩, hmem, ha⟩
      obtain ⟨j, hj, rfl⟩ := Option.map_eq_some_iff.mp ha
      exact ⟨k, d, mem_zipIdx_iff_getElem?.mp hmem, rfl, hj⟩
    · rintro ⟨k, d, hk, hi, hj⟩
      refine ⟨(d, k), mem_zipIdx_iff_getElem?.mpr hk, Option.map_eq_some_iff.mpr ⟨_, hj, ?_⟩⟩
      exact Prod.ext hi.symm rfl
  · exact iff_of_false nofun fun h => hpolicy h.1

theorem nodup_aliasesOf : ((aliasesOf options m us).map (·.1)).Nodup := by
  rw [nodup_iff_pairwise_ne, pairwise_map]
  unfold aliasesOf
  split_ifs
  · rw [pairwise_filterMap]
    refine Model.pairwise_zipIdx.imp ?_
    rintro ⟨d, k⟩ ⟨d', k'⟩ hlt a ha b hb
    obtain ⟨_, -, rfl⟩ := Option.map_eq_some_iff.mp ha
    obtain ⟨_, -, rfl⟩ := Option.map_eq_some_iff.mp hb
    omega
  · exact .nil

/-- Whether a late unit stands for an earlier one. -/
def standsFor (options : Options) (m : Model) (u : UnitEntry) : Bool :=
  options.redeclaration = .sameUnit && (m.findUnit? u.name).isSome

def kept (options : Options) (m : Model) (late : List UnitEntry) : List UnitEntry :=
  late.filter (!standsFor options m ·)

/-- Late units agree with the earlier ones for which they stand. -/
def AliasesAgree (options : Options) (m : Model) (late : List UnitEntry) : Prop :=
  options.redeclaration = .sameUnit → ∀ u ∈ late, ∀ i v,
    m.findUnit? u.name = some i → m.units[i]? = some v → agree u v = true

theorem le_of_mem_removed (h : i ∈ (aliasesOf options m us).map (·.1)) : m.units.length ≤ i := by
  obtain ⟨a, ha, rfl⟩ := mem_map.mp h
  obtain ⟨-, k, -, -, hi, -⟩ := mem_aliasesOf.mp ha
  omega

theorem IsSolution.decl (hsol : IsSolution options m us late) {k : Nat} (hk : late[k]? = some u) :
    ∃ d, us[k]? = some d ∧ d.name = u.name := by
  have h := congrArg (·[k]?) hsol.names
  simp only [getElem?_map, hk] at h
  exact Option.map_eq_some_iff.mp h.symm

theorem IsSolution.mem_removed (hsol : IsSolution options m us late) (hk : late[k]? = some u) :
    m.units.length + k ∈ (aliasesOf options m us).map (·.1) ↔ standsFor options m u = true := by
  obtain ⟨d, hd, hname⟩ := hsol.decl hk
  unfold standsFor
  rw [mem_map, Bool.and_eq_true, decide_eq_true_eq, ← hname]
  constructor
  · rintro ⟨a, ha, hi⟩
    obtain ⟨hpolicy, k', d', hk', hi', hj⟩ := mem_aliasesOf.mp ha
    obtain rfl : k = k' := by omega
    rw [hd] at hk'
    cases hk'
    exact ⟨hpolicy, hj ▸ rfl⟩
  · rintro ⟨hpolicy, hsome⟩
    obtain ⟨j, hj⟩ := Option.isSome_iff_exists.mp hsome
    exact ⟨(_, j), mem_aliasesOf.mpr ⟨hpolicy, k, d, hd, rfl, hj⟩, rfl⟩

theorem IsSolution.without_units (hsol : IsSolution options m us late) :
    without ((aliasesOf options m us).map (·.1)) (m.units ++ late) =
      m.units ++ kept options m late := by
  refine without_append (fun _ => le_of_mem_removed) fun k u hk => ?_
  rw [hsol.mem_removed hk, Bool.not_eq_false']

/-- The places of a name that are left: the earlier units if late ones stand for them, or else
all. -/
theorem IsSolution.filter_places (hsol : IsSolution options m us late) (name : String) :
    (Model.places (m.units ++ late) (·.name = name)).filter
        (· ∉ (aliasesOf options m us).map (·.1)) =
      if options.redeclaration = .sameUnit ∧ (m.findUnit? name).isSome = true then
        Model.places m.units (·.name = name)
      else Model.places (m.units ++ late) (·.name = name) := by
  have hearly : (Model.places m.units (·.name = name)).filter
      (· ∉ (aliasesOf options m us).map (·.1)) = Model.places m.units (·.name = name) := by
    refine filter_eq_self.mpr fun i hi => decide_eq_true fun hmem => ?_
    obtain ⟨u, hu, -⟩ := Model.mem_places.mp hi
    exact absurd (lt_of_getElem? hu) (Nat.not_lt.mpr (le_of_mem_removed hmem))
  rw [Model.places_append, filter_append, hearly]
  split_ifs with hpolicy
  · refine (congrArg (_ ++ ·) (filter_eq_nil_iff.mpr fun i hi hmem => ?_)).trans
      (append_nil _)
    obtain ⟨k, hk, rfl⟩ := mem_map.mp hi
    obtain ⟨u, hu, hname⟩ := Model.mem_places.mp hk
    rw [decide_eq_true_eq, hsol.mem_removed hu] at hmem
    rw [decide_eq_true_eq] at hname
    subst hname
    exact hmem (by simpa [standsFor] using hpolicy)
  · refine congrArg (_ ++ ·) (filter_eq_self.mpr fun i hi => decide_eq_true fun hmem => ?_)
    obtain ⟨k, hk, rfl⟩ := mem_map.mp hi
    obtain ⟨u, hu, hname⟩ := Model.mem_places.mp hk
    rw [hsol.mem_removed hu] at hmem
    rw [decide_eq_true_eq] at hname
    subst hname
    exact hpolicy (by simpa [standsFor] using hmem)

/-- The tables hold the units that stay, and nothing was reported. -/
def Holds (options : Options) (m : Model) (ds : Diagnostics) (late : List UnitEntry)
    (p : Progress) : Prop :=
  p.toScope.Alike (scopeOf (m.units ++ kept options m late)) ∧ p.diagnostics = ds

section Solved

variable (hp : AllWait options m ds us p todo) (hd : us.Pairwise Differ)
  (hsol : IsSolution options m us late) (hq : Solved m ds late p q)

include hsol hq

theorem Solved.alias (ha : a ∈ aliasesOf options m us) :
    q.state a.1 = .done ∧ ∃ u v, u ∈ late ∧ q.units[a.1]? = some u ∧ m.units[a.2]? = some v ∧
      q.units[a.2]? = some v ∧ m.findUnit? u.name = some a.2 := by
  obtain ⟨-, k, d, hk, hi, hj⟩ := mem_aliasesOf.mp ha
  have hstart : (start m ds).states.length = m.units.length := length_map ..
  obtain ⟨e, -, hu⟩ := hsol.meaning k d hk
  have hlt := Model.getLast?_places_lt hj
  rw [hi]
  refine ⟨?_, _, m.units[a.2], mem_of_getElem? hu, ?_, getElem?_eq_getElem hlt, ?_, hj⟩
  · rw [Scope.state, getD_eq_getElem?_getD, hq.states, ← hstart,
      getElem?_append_right (Nat.le_add_right _ _), Nat.add_sub_cancel_left,
      getElem?_map, hu]
    rfl
  · rw [hq.units, getElem?_append_right (Nat.le_add_right _ _), Nat.add_sub_cancel_left, hu]
  · rw [hq.units, getElem?_append_left hlt, getElem?_eq_getElem hlt]

/-- The comparisons are those of the late units with the earlier ones of their names. -/
theorem Solved.same_iff :
    (∀ a ∈ aliasesOf options m us, Same q a) ↔ AliasesAgree options m late := by
  constructor
  · intro h hpolicy u hu i v hi hv
    obtain ⟨k, hk⟩ := mem_iff_getElem?.mp hu
    obtain ⟨d, hd, hname⟩ := hsol.decl hk
    have ha : (m.units.length + k, i) ∈ aliasesOf options m us :=
      mem_aliasesOf.mpr ⟨hpolicy, k, d, hd, rfl, hname ▸ hi⟩
    obtain ⟨u', v', hu', hv', hagree⟩ := h _ ha
    have hlt := lt_of_getElem? hv
    rw [hq.units, getElem?_append_right (Nat.le_add_right _ _), Nat.add_sub_cancel_left,
      hk] at hu'
    rw [hq.units, getElem?_append_left hlt, hv] at hv'
    cases hu'
    cases hv'
    exact hagree
  · intro h a ha
    obtain ⟨-, u, v, hu, hqu, hv, hqv, hname⟩ := hq.alias hsol ha
    exact ⟨u, v, hqu, hqv, h (mem_aliasesOf.mp ha).1 u hu a.2 v hname hv⟩

include hp hd in
/-- **What is left after the removal is known as in a model with the units that stay.** -/
theorem Solved.alike_removeUnits :
    (removeUnits ((aliasesOf options m us).map (·.1))
      (rename q (aliasesOf options m us))).toScope.Alike
        (scopeOf (m.units ++ kept options m late)) where
  units := by
    show without _ q.units = _
    rw [hq.units, hsol.without_units]
    rfl
  states := by
    show without _ q.states = _
    rw [hq.states, ← states_scopeOf hsol.valid]
    refine (without_map _ _).trans ?_
    rw [hsol.without_units]
    rfl
  names name := by
    have hknown : ∀ a ∈ aliasesOf options m us, m.findUnit? (q.nameOf a.1) = some a.2 := by
      intro a ha
      obtain ⟨-, u, -, -, hu, -, -, hname⟩ := hq.alias hsol ha
      rw [Progress.nameOf, hu]
      exact hname
    refine Eq.trans ?_ (get?_start_names _ _ name).symm
    rw [← hsol.without_units]
    show (Table.map _ _).get? name = (Model.places _ _).getLast?
    rw [Table.get?_map, get?_rename hknown name, places_without nodup_aliasesOf,
      getLast?_map, hsol.filter_places]
    refine congrArg _ ?_
    by_cases hpolicy : options.redeclaration = .sameUnit ∧ (m.findUnit? name).isSome = true
    · rw [if_pos hpolicy]
      split_ifs with hmem
      · rfl
      · -- no late unit has the name, or it would stand for the earlier one
        rw [hq.names, hp.names.early fun d hd hname => ?_]
        · rfl
        · obtain ⟨k, hk⟩ := mem_iff_getElem?.mp hd
          obtain ⟨e, -, hu⟩ := hsol.meaning k d hk
          obtain ⟨j, hj⟩ := Option.isSome_iff_exists.mp hpolicy.2
          rw [mem_singleton.mp hname] at hj hmem
          refine hmem (mem_map.mpr ⟨(m.units.length + k, j), ?_, ?_⟩)
          · exact mem_aliasesOf.mpr ⟨hpolicy.1, k, d, hk, rfl, hj⟩
          · rw [Progress.nameOf, hq.units, getElem?_append_right (Nat.le_add_right _ _),
              Nat.add_sub_cancel_left, hu]
            rfl
    · rw [if_neg hpolicy, if_neg, hq.names, hp.get?_names hd hsol.names]
      · rfl
      · intro hmem
        obtain ⟨a, ha, rfl⟩ := mem_map.mp hmem
        exact hpolicy ⟨(mem_aliasesOf.mp ha).1, hknown a ha ▸ rfl⟩

include hp hd in
/-- The late units are compared with the earlier ones and those that stay are held, or an error
is reported. -/
theorem Solved.resolveAliases_cases :
    (AliasesAgree options m late ∧
        Holds options m ds late (removeUnits (resolveAliases q [] todo.aliases).2
          (resolveAliases q [] todo.aliases).1)) ∨
      ¬ AliasesAgree options m late ∧
        (resolveAliases q [] todo.aliases).1.diagnostics.hasErrors = true := by
  rw [hp.aliases, ← hq.same_iff hsol]
  rcases @Elaborate.resolveAliases_cases q [] _ (fun a ha => (hq.alias hsol ha).1)
      (fun a ha => by
        obtain ⟨-, u, v, -, hu, -, hv, -⟩ := hq.alias hsol ha
        exact ⟨u, v, hu, hv⟩) with ⟨hsame, heq⟩ | hnot
  · refine .inl ⟨hsame, ?_⟩
    rw [heq]
    exact ⟨hq.alike_removeUnits hp hd hsol, hq.diagnostics⟩
  · exact .inr hnot

end Solved

/-- **The units fit the declarations**: nothing speaks against them, they have a meaning, and
those that stand for earlier units agree with them. -/
structure Fitting (options : Options) (m : Model) (us : List UnitDecl) (late : List UnitEntry) :
    Prop where
  admitted : AllAdmitted options m us
  solution : IsSolution options m us late
  aliases : AliasesAgree options m late

theorem elaborateUnits_eq_ok (h : elaborateUnits options m ds us = .ok r) :
    ∃ q, encodeUnits options (declareAll options m ds us).1
        (declareAll options m ds us).2.pending = .ok q ∧
      r = removeUnits (resolveAliases q [] (declareAll options m ds us).2.aliases).2
        (resolveAliases q [] (declareAll options m ds us).2.aliases).1 := by
  obtain ⟨q, hq, h⟩ := bind_eq_ok_iff.mp h
  exact ⟨q, hq, (Except.ok.inj h).symm⟩

/-- **Units that get a meaning without an error fit their declarations.** -/
theorem elaborateUnits_noErrors (hlate : m.lateUnits = m.units.length)
    (h : elaborateUnits options m ds us = .ok r) (hok : r.diagnostics.hasErrors = false) :
    ∃ late, Fitting options m us late ∧ Holds options m ds late r := by
  obtain ⟨q, hq, rfl⟩ := elaborateUnits_eq_ok h
  have hok : (resolveAliases q [] _).1.diagnostics.hasErrors = false := hok
  have hqok : q.diagnostics.hasErrors = false :=
    Bool.eq_false_iff.mpr fun herr => by
      rw [hasErrors_resolveAliases herr] at hok
      cases hok
  have hdeclared := declared_declareUnits m.lateUnits us (declared_start options m ds)
  unfold declareAll at hq hok ⊢
  rw [hlate] at hq hok hdeclared ⊢
  rcases declareUnits_cases us (allWait_start options m ds) ⟨.nil, nofun⟩ with
    ⟨hadmitted, hp⟩ | ⟨-, herr⟩
  · rw [nil_append] at hadmitted hp
    obtain ⟨late, hsol, hsolved⟩ := encodeUnits_noErrors hp hadmitted.differ hq hqok
    rcases hsolved.resolveAliases_cases hp hadmitted.differ hsol with ⟨hagree, hholds⟩ | ⟨-, herr⟩
    · exact ⟨late, ⟨hadmitted, hsol, hagree⟩, hholds⟩
    · rw [hok] at herr
      cases herr
  · rw [← diagnostics_encodeUnits hdeclared.ready.toAwaits hq hqok, hqok] at herr
    cases herr

/-- **Units that fit their declarations are found**, without an error. -/
theorem Fitting.exists_elaborateUnits (h : Fitting options m us late)
    (hlate : m.lateUnits = m.units.length) (ds : Diagnostics) :
    ∃ r, elaborateUnits options m ds us = .ok r ∧ Holds options m ds late r := by
  rcases declareUnits_cases us (allWait_start options m ds) ⟨.nil, nofun⟩ with
    ⟨hadmitted, hp⟩ | ⟨hnot, -⟩
  · rw [nil_append] at hadmitted hp
    obtain ⟨q, hq, hsolved⟩ := h.solution.exists_encodeUnits hp hadmitted.differ
    rcases hsolved.resolveAliases_cases hp hadmitted.differ h.solution with ⟨-, hholds⟩ | ⟨hnot, -⟩
    · refine ⟨_, ?_, hholds⟩
      unfold elaborateUnits
      dsimp only
      rw [hlate, hq]
      rfl
    · exact absurd h.aliases hnot
  · exact absurd h.admitted hnot

end Units

end Elaborate

end Quantity
