import Quantity.Proofs.Model.Aliases
import Quantity.Proofs.Model.Names

/-!
# Where names lead in the end

Late units that reuse a name may be compared with the earlier units of these names: a unit that
agrees is removed and its name goes back to the earlier unit, a unit that does not agree loses its
meaning. `compared_resolveAliases` says what the comparison leaves, also where some units have no
meaning, and `Stages.leads` where a name leads after the removal.
-/

namespace Quantity.Elaborate

open List

variable {options : Options} {m : Model} {ds : Diagnostics} {us : List UnitDecl}
  {p q r : Progress} {todo : Todo} {aliases : List (Nat × Nat)} {removed : List Nat}

/-! ### Comparison -/

/-- A late unit gives way to the earlier one, with which it agrees. -/
def Retires (p : Progress) (a : Nat × Nat) : Prop := p.state a.1 = .done ∧ Same p a

/-- A late unit differs from the earlier one. -/
def Clashes (p : Progress) (a : Nat × Nat) : Prop :=
  p.state a.1 = .done ∧ ∃ late early, p.units[a.1]? = some late ∧ p.units[a.2]? = some early ∧
    agree late early = false

/-- Whether a late unit retires depends on the two units and its own state only. -/
theorem retires_congr (hs : q.state a.1 = p.state a.1) (hlate : q.units[a.1]? = p.units[a.1]?)
    (hearly : q.units[a.2]? = p.units[a.2]?) :
    (Retires q a ↔ Retires p a) ∧ (Clashes q a ↔ Clashes p a) := by
  unfold Retires Clashes Same
  rw [hs, hlate, hearly]
  exact ⟨.rfl, .rfl⟩

theorem getElem?_of_state_done {s : Scope} (h : s.state i = .done) : s.states[i]? = some .done := by
  rw [Scope.state, getD_eq_getElem?_getD] at h
  cases hs : s.states[i]? with
  | none =>
    rw [hs] at h
    cases h
  | some state =>
    rw [hs] at h
    exact congrArg some h

theorem Clashes.not_retires (h : Clashes p a) : ¬ Retires p a := by
  obtain ⟨-, late, early, hlate, hearly, hagree⟩ := h
  rintro ⟨-, late', early', hlate', hearly', hagree'⟩
  rw [hlate] at hlate'
  rw [hearly] at hearly'
  cases hlate'
  cases hearly'
  rw [hagree] at hagree'
  cases hagree'

/-- **What the comparison leaves**: the units that retire are listed and their names lead to the
earlier units, those that clash have no meaning, and all else is as it was. -/
structure Compared (p : Progress) (aliases : List (Nat × Nat)) (q : Progress)
    (retired : List Nat) : Prop where
  length : q.units.length = p.units.length ∧ q.states.length = p.states.length
  mem : ∀ i, i ∈ retired ↔ ∃ j, (i, j) ∈ aliases ∧ Retires p (i, j)
  kept : ∀ i, (∀ j, (i, j) ∈ aliases → ¬ Clashes p (i, j)) →
    q.units[i]? = p.units[i]? ∧ q.states[i]? = p.states[i]?
  refused : ∀ i j, (i, j) ∈ aliases → Clashes p (i, j) →
    (q.units[i]? = p.units[i]?.map fun u => { u with valid := false }) ∧
      ∃ why, q.states[i]? = some (.failed why)
  back : ∀ i j u, (i, j) ∈ aliases → Retires p (i, j) → p.units[i]? = some u →
    q.names.get? u.name = some j
  names : ∀ name, (∀ i j u, (i, j) ∈ aliases → Retires p (i, j) → p.units[i]? = some u →
    u.name ≠ name) → q.names.get? name = p.names.get? name

theorem Compared.unit_cases (h : Compared p aliases q retired) (hu : p.units[i]? = some u) :
    (∀ j, (i, j) ∈ aliases → ¬ Clashes p (i, j)) ∧ q.units[i]? = some u ∨
      ∃ j, (i, j) ∈ aliases ∧ Clashes p (i, j) ∧ q.units[i]? = some { u with valid := false } := by
  by_cases hclash : ∃ j, (i, j) ∈ aliases ∧ Clashes p (i, j)
  · obtain ⟨j, hmem, hclash⟩ := hclash
    refine .inr ⟨j, hmem, hclash, ?_⟩
    rw [(h.refused i j hmem hclash).1, hu]
    rfl
  · have hnone : ∀ j, (i, j) ∈ aliases → ¬ Clashes p (i, j) := fun j hmem hc => hclash ⟨j, hmem, hc⟩
    exact .inl ⟨hnone, (h.kept i hnone).1.trans hu⟩

theorem Compared.exists_unit {i : Nat} (h : Compared p aliases q retired)
    (hu : q.units[i]? = some u) : ∃ v, p.units[i]? = some v := by
  have hlt := lt_of_getElem? hu
  rw [h.length.1] at hlt
  exact ⟨_, getElem?_eq_getElem hlt⟩

/-- Late units that are to be compared, each once, with units that are not late, and that have
the names under which the earlier units are known. -/
structure Comparable (known : String → Option Nat) (p : Progress) (aliases : List (Nat × Nat)) :
    Prop where
  nodup : (aliases.map (·.1)).Nodup
  apart : ∀ a ∈ aliases, ∀ b ∈ aliases, b.2 ≠ a.1
  known : ∀ i j u, (i, j) ∈ aliases → p.units[i]? = some u → known u.name = some j

section Steps

variable {known : String → Option Nat} {i j : Nat}

theorem Comparable.tail (h : Comparable known p ((i, j) :: aliases)) :
    Comparable known p aliases where
  nodup := (nodup_cons.mp h.nodup).2
  apart a ha b hb := h.apart a (mem_cons_of_mem _ ha) b (mem_cons_of_mem _ hb)
  known i j u hmem := h.known i j u (mem_cons_of_mem _ hmem)

theorem Comparable.ne_of_mem (h : Comparable known p ((i, j) :: aliases)) (ha : a ∈ aliases) :
    a.1 ≠ i ∧ a.2 ≠ i := by
  refine ⟨fun hi => ?_, h.apart (i, j) (mem_cons_self ..) a (mem_cons_of_mem _ ha)⟩
  exact (nodup_cons.mp h.nodup).1 (mem_map.mpr ⟨a, ha, hi⟩)

/-- Where the units and states stay, the names matter to no comparison. -/
theorem Comparable.rename (h : Comparable known p aliases) (names : Table) :
    Comparable known { p with names } aliases where
  nodup := h.nodup
  apart := h.apart
  known := h.known

theorem compared_nil (p : Progress) : Compared p [] p [] where
  length := ⟨rfl, rfl⟩
  mem i := by simp
  kept i _ := ⟨rfl, rfl⟩
  refused i j hmem := absurd hmem not_mem_nil
  back i j u hmem := absurd hmem not_mem_nil
  names name _ := rfl

theorem Compared.retire (hc : Comparable known p ((i, j) :: aliases)) (hretires : Retires p (i, j))
    (hlate : p.units[i]? = some late)
    (h : Compared { p with names := p.names.insert late.name j } aliases q retired) :
    Compared p ((i, j) :: aliases) q (i :: retired) where
  length := h.length
  mem k := by
    rw [mem_cons, h.mem k]
    constructor
    · rintro (rfl | ⟨l, hl, hr⟩)
      · exact ⟨j, mem_cons_self .., hretires⟩
      · exact ⟨l, mem_cons_of_mem _ hl, hr⟩
    · rintro ⟨l, hl, hr⟩
      rcases mem_cons.mp hl with hl | hl
      · exact .inl (congrArg Prod.fst hl)
      · exact .inr ⟨l, hl, hr⟩
  kept k hk := h.kept k fun l hl => hk l (mem_cons_of_mem _ hl)
  refused k l hl hclash := by
    rcases mem_cons.mp hl with hl | hl
    · cases hl
      exact absurd hretires hclash.not_retires
    · exact h.refused k l hl hclash
  back k l u hl hr hu := by
    rcases mem_cons.mp hl with hl | hl
    · cases hl
      rw [hlate] at hu
      cases hu
      -- the last of the units of this name decides, and all of them retire for the same one
      by_cases hlater : ∃ k l u, (k, l) ∈ aliases ∧ Retires p (k, l) ∧ p.units[k]? = some u ∧
          u.name = late.name
      · obtain ⟨k, l, u, hl, hr, hu, hname⟩ := hlater
        have hj := hc.known i j late (mem_cons_self ..) hlate
        rw [← hname, hc.known k l u (mem_cons_of_mem _ hl) hu] at hj
        rw [← hname, h.back k l u hl hr hu, hj]
      · rw [h.names late.name fun k l u hl hr hu hname => hlater ⟨k, l, u, hl, hr, hu, hname⟩]
        exact (Table.get?_insert ..).trans (if_pos rfl)
    · exact h.back k l u hl hr hu
  names name hname := by
    rw [h.names name fun k l u hl => hname k l u (mem_cons_of_mem _ hl)]
    refine (Table.get?_insert ..).trans (if_neg ?_)
    exact hname i j late (mem_cons_self ..) hretires hlate

theorem Compared.skip (hretires : ¬ Retires p (i, j)) (hclash : ¬ Clashes p (i, j))
    (h : Compared p aliases q retired) : Compared p ((i, j) :: aliases) q retired where
  length := h.length
  mem k := by
    rw [h.mem k]
    constructor
    · rintro ⟨l, hl, hr⟩
      exact ⟨l, mem_cons_of_mem _ hl, hr⟩
    · rintro ⟨l, hl, hr⟩
      rcases mem_cons.mp hl with hl | hl
      · cases hl
        exact absurd hr hretires
      · exact ⟨l, hl, hr⟩
  kept k hk := h.kept k fun l hl => hk l (mem_cons_of_mem _ hl)
  refused k l hl hc := by
    rcases mem_cons.mp hl with hl | hl
    · cases hl
      exact absurd hc hclash
    · exact h.refused k l hl hc
  back k l u hl hr hu := by
    rcases mem_cons.mp hl with hl | hl
    · cases hl
      exact absurd hr hretires
    · exact h.back k l u hl hr hu
  names name hname := h.names name fun k l u hl => hname k l u (mem_cons_of_mem _ hl)

/-- The unit at a place loses its meaning. -/
def refuse (p : Progress) (i : Nat) (why : Diagnostic) : Progress :=
  (p.modifyUnit i fun u => { u with valid := false }).fail i why

theorem refuse_elsewhere (hk : k ≠ i) (why : Diagnostic) :
    (refuse p i why).units[k]? = p.units[k]? ∧ (refuse p i why).states[k]? = p.states[k]? ∧
      (refuse p i why).state k = p.state k := by
  have hstates : (refuse p i why).states[k]? = p.states[k]? := getElem?_set_ne hk.symm
  refine ⟨getElem?_modify_ne _ _ hk.symm, hstates, ?_⟩
  rw [Scope.state, Scope.state, getD_eq_getElem?_getD, getD_eq_getElem?_getD, hstates]

theorem Comparable.refuse (h : Comparable known p ((i, j) :: aliases)) (why : Diagnostic) :
    Comparable known (refuse p i why) aliases ∧ ∀ a ∈ aliases,
      (Retires (refuse p i why) a ↔ Retires p a) ∧ (Clashes (refuse p i why) a ↔ Clashes p a) := by
  refine ⟨⟨h.tail.nodup, h.tail.apart, fun k l u hl hu => ?_⟩, fun a ha => ?_⟩
  · rw [(refuse_elsewhere (h.ne_of_mem hl).1 why).1] at hu
    exact h.tail.known k l u hl hu
  · obtain ⟨hunit, -, hstate⟩ := refuse_elsewhere (p := p) (h.ne_of_mem ha).1 why
    exact retires_congr hstate hunit (refuse_elsewhere (h.ne_of_mem ha).2 why).1

theorem Compared.refuse (hc : Comparable known p ((i, j) :: aliases)) (hclash : Clashes p (i, j))
    (h : Compared (refuse p i why) aliases q retired) :
    Compared p ((i, j) :: aliases) q retired := by
  obtain ⟨-, hsame⟩ := hc.refuse why
  have hnot (l : Nat) : (i, l) ∉ aliases := fun hl => (hc.ne_of_mem hl).1 rfl
  have helsewhere {k : Nat} (hk : k ≠ i) := refuse_elsewhere (p := p) hk why
  constructor
  case length =>
    exact ⟨h.length.1.trans (length_modify ..), h.length.2.trans length_set⟩
  case mem =>
    intro k
    rw [h.mem k]
    constructor
    · rintro ⟨l, hl, hr⟩
      exact ⟨l, mem_cons_of_mem _ hl, (hsame _ hl).1.mp hr⟩
    · rintro ⟨l, hl, hr⟩
      rcases mem_cons.mp hl with hl | hl
      · cases hl
        exact absurd hr hclash.not_retires
      · exact ⟨l, hl, (hsame _ hl).1.mpr hr⟩
  case kept =>
    intro k hk
    have hki : k ≠ i := by
      rintro rfl
      exact hk j (mem_cons_self ..) hclash
    obtain ⟨hunit, hstate⟩ := h.kept k fun l hl hcl =>
      hk l (mem_cons_of_mem _ hl) ((hsame _ hl).2.mp hcl)
    exact ⟨hunit.trans (helsewhere hki).1, hstate.trans (helsewhere hki).2.1⟩
  case refused =>
    intro k l hl hcl
    rcases mem_cons.mp hl with hl | hl
    · cases hl
      obtain ⟨hunit, hstate⟩ := h.kept i fun l hl => absurd hl (hnot l)
      have hlt := lt_of_getElem? (getElem?_of_state_done hclash.1)
      rw [hunit, hstate]
      exact ⟨getElem?_modify_eq .., why, List.getElem?_set_self hlt⟩
    · rw [← (helsewhere (hc.ne_of_mem hl).1).1]
      exact h.refused k l hl ((hsame _ hl).2.mpr hcl)
  case back =>
    intro k l u hl hr hu
    rcases mem_cons.mp hl with hl | hl
    · cases hl
      exact absurd hr hclash.not_retires
    · exact h.back k l u hl ((hsame _ hl).1.mpr hr) ((helsewhere (hc.ne_of_mem hl).1).1.trans hu)
  case names =>
    intro name hname
    refine h.names name fun k l u hl hr hu => ?_
    exact hname k l u (mem_cons_of_mem _ hl) ((hsame _ hl).1.mp hr)
      ((helsewhere (hc.ne_of_mem hl).1).1.symm.trans hu)

end Steps

/-- **All pairs are compared.** -/
theorem compared_resolveAliases (h : Comparable known p aliases) :
    ∃ retired, (resolveAliases p removed aliases).2 = removed ++ retired ∧
      retired.Sublist (aliases.map (·.1)) ∧
      Compared p aliases (resolveAliases p removed aliases).1 retired := by
  fun_induction resolveAliases p removed aliases with
  | case1 p removed =>
    exact ⟨[], (append_nil _).symm, .slnil, compared_nil p⟩
  | case2 p removed i previous more late early hearly hlate hs hagree ih =>
    obtain ⟨retired, heq, hsub, hcompared⟩ := ih (h.tail.rename _)
    refine ⟨i :: retired, by rw [heq, List.append_assoc, singleton_append], hsub.cons_cons i, ?_⟩
    exact hcompared.retire h ⟨hs, late, early, hlate, hearly, hagree⟩ hlate
  | case3 p removed i previous more late early hearly hlate hs hagree why ih =>
    obtain ⟨retired, heq, hsub, hcompared⟩ := ih (h.refuse why).1
    refine ⟨retired, heq, hsub.cons i, ?_⟩
    exact hcompared.refuse h ⟨hs, late, early, hlate, hearly, Bool.eq_false_iff.mpr hagree⟩
  | case4 p removed i previous more hnot ih =>
    obtain ⟨retired, heq, hsub, hcompared⟩ := ih h.tail
    refine ⟨retired, heq, hsub.cons i, hcompared.skip ?_ ?_⟩
    · rintro ⟨hs, late, early, hlate, hearly, -⟩
      exact hnot late early hs hlate hearly
    · rintro ⟨hs, late, early, hlate, hearly, -⟩
      exact hnot late early hs hlate hearly

/-! ### Removal -/

section Removal

variable {α : Type} {xs : List α}

variable {removed : List Nat} (hnodup : removed.Nodup)

include hnodup

theorem countP_lt_le (n : Nat) : removed.countP (· < n) ≤ n := by
  induction n with
  | zero => simp
  | succ n ih =>
    rw [countP_lt_succ hnodup]
    split_ifs <;> omega

theorem renumber_succ (n : Nat) :
    renumber removed (n + 1) = renumber removed n + if n ∈ removed then 0 else 1 := by
  have hle := countP_lt_le hnodup n
  unfold renumber
  rw [countP_lt_succ hnodup]
  split_ifs <;> omega

theorem renumber_le (h : i ≤ n) : renumber removed i ≤ renumber removed n := by
  induction n, h using Nat.le_induction with
  | base => exact Nat.le_refl _
  | succ n _ ih =>
    rw [renumber_succ hnodup]
    omega

theorem renumber_lt (hi : i ∉ removed) (hin : i < n) : renumber removed i < renumber removed n := by
  have hle := renumber_le hnodup (Nat.succ_le_of_lt hin)
  rw [renumber_succ hnodup, if_neg hi] at hle
  omega

theorem length_without_eq (xs : List α) :
    (without removed xs).length = renumber removed xs.length := by
  have := length_without hnodup xs
  unfold renumber
  omega

/-- **An entry that stays is found at its new place.** -/
theorem getElem?_without_renumber (hi : i ∉ removed) :
    (without removed xs)[renumber removed i]? = xs[i]? := by
  induction xs using List.reverseRecOn with
  | nil => rfl
  | append_singleton xs x ih =>
    have hlen := length_without_eq hnodup xs
    rw [without_append_singleton]
    rcases Nat.lt_trichotomy i xs.length with hlt | rfl | hgt
    · rw [getElem?_append_left hlt, ← ih, getElem?_append_left]
      rw [hlen]
      exact renumber_lt hnodup hi hlt
    · rw [if_neg hi, ← hlen, getElem?_concat_length, getElem?_concat_length]
    · have hle : (xs ++ [x]).length ≤ i := by
        simp
        omega
      rw [← without_append_singleton, getElem?_eq_none hle, getElem?_eq_none]
      rw [length_without_eq hnodup]
      exact renumber_le hnodup hle

theorem exists_of_getElem?_without (h : (without removed xs)[k]? = some x) :
    ∃ i, i ∉ removed ∧ renumber removed i = k ∧ xs[i]? = some x := by
  have hmem : k ∈ Model.places (without removed xs) fun _ => true :=
    Model.mem_places.mpr ⟨x, h, rfl⟩
  rw [places_without hnodup] at hmem
  obtain ⟨i, hi, rfl⟩ := mem_map.mp hmem
  obtain ⟨-, hi⟩ := mem_filter.mp hi
  have hi : i ∉ removed := of_decide_eq_true hi
  exact ⟨i, hi, rfl, (getElem?_without_renumber hnodup hi).symm.trans h⟩

omit hnodup

theorem renumber_of_lt (h : ∀ j ∈ removed, n ≤ j) (hi : i < n) : renumber removed i = i := by
  have hnone : removed.countP (· < i) = 0 := by
    refine countP_eq_zero.mpr fun j hj => ?_
    have := h j hj
    simp
    omega
  rw [renumber, hnone, Nat.sub_zero]

end Removal

/-! ### The stages -/

/-- **How units get their meaning**: they are declared, the passes give them a meaning or give
them up, those that reuse a name are compared, and those that retire are removed. -/
structure Stages (options : Options) (m : Model) (us : List UnitDecl) (q : Progress) (todo : Todo)
    (s : Progress) (retired : List Nat) (r : Progress) : Prop where
  passes : ∃ p r' deferred, Declared options m us p todo ∧
    Stuck options todo.pending p r' deferred ∧ q = giveUp deferred r'
  tables : Tables options m q todo
  nodup : retired.Nodup
  compared : Compared q todo.aliases s retired
  removed : r = removeUnits retired s

theorem Tables.comparable (h : Tables options m q todo) :
    Comparable m.findUnit? q todo.aliases where
  nodup := h.claims.nodup
  apart a ha b hb heq := by
    obtain ⟨-, hle, -⟩ := (h.claims.mem a.1 a.2).mp ha
    obtain ⟨-, -, name, -, hj⟩ := (h.claims.mem b.1 b.2).mp hb
    have := Model.getLast?_places_lt hj
    omega
  known i j u hmem hu := by
    obtain ⟨-, -, name, hname, hj⟩ := (h.claims.mem i j).mp hmem
    obtain ⟨v, hv, rfl⟩ := h.named name i hname
    rw [hu] at hv
    cases hv
    exact hj

/-- The stages in full: what is declared is encoded in passes, compared and removed. -/
theorem exists_passes (hlate : m.lateUnits = m.units.length)
    (h : elaborateUnits options m ds us = .ok r) :
    ∃ r' deferred retired,
      Stuck options (declareUnits options m.units.length (start m ds) {} us).2.pending
        (declareUnits options m.units.length (start m ds) {} us).1 r' deferred ∧
      Stages options m us (giveUp deferred r')
        (declareUnits options m.units.length (start m ds) {} us).2
        (resolveAliases (giveUp deferred r') []
          (declareUnits options m.units.length (start m ds) {} us).2.aliases).1 retired r := by
  obtain ⟨q, hq, rfl⟩ := elaborateUnits_eq_ok h
  unfold declareAll at hq ⊢
  rw [hlate] at hq ⊢
  have hd := declared_declareUnits m.units.length us (declared_start options m ds)
  obtain ⟨e, he, -⟩ | ⟨r, deferred, hr, hstuck⟩ := encodeUnits_cases hd
  · rw [hq] at he
    cases he
  · rw [hq] at hr
    cases hr
    have ht := (tables_declareUnits us (declared_start options m ds) tables_start
      tagsInRange_start).1
    have htables := hstuck.tables ht
    obtain ⟨retired, heq, hsub, hcompared⟩ := compared_resolveAliases htables.comparable
    refine ⟨r, deferred, retired, hstuck, ⟨_, _, _, hd, hstuck, rfl⟩, htables, ?_, hcompared, ?_⟩
    · exact hsub.nodup htables.claims.nodup
    · rw [heq, nil_append]

theorem exists_stages (hlate : m.lateUnits = m.units.length)
    (h : elaborateUnits options m ds us = .ok r) :
    ∃ q todo s retired, Stages options m us q todo s retired r := by
  obtain ⟨_, _, _, -, hstages⟩ := exists_passes hlate h
  exact ⟨_, _, _, _, hstages⟩

section Stages

variable {s : Progress} {retired : List Nat} (h : Stages options m us q todo s retired r)

include h

theorem Stages.le_of_mem (hi : i ∈ retired) : m.units.length ≤ i := by
  obtain ⟨j, hmem, -⟩ := (h.compared.mem i).mp hi
  exact ((h.tables.claims.mem i j).mp hmem).2.1

theorem Stages.le_renumber : m.units.length ≤ renumber retired i ↔ m.units.length ≤ i := by
  constructor
  · intro hle
    refine Nat.le_of_not_lt fun hlt => ?_
    rw [renumber_of_lt (fun j => h.le_of_mem) hlt] at hle
    omega
  · intro hle
    have hsame : renumber retired m.units.length = m.units.length := by
      have hnone : retired.countP (· < m.units.length) = 0 := by
        refine countP_eq_zero.mpr fun j hj => ?_
        have := h.le_of_mem hj
        simp
        omega
      rw [renumber, hnone, Nat.sub_zero]
    exact hsame ▸ renumber_le h.nodup hle

theorem Stages.early_passes (hi : i < m.units.length) : q.units[i]? = m.units[i]? := by
  obtain ⟨p, r', deferred, hd, hstuck, rfl⟩ := h.passes
  exact (hstuck.isFixedPoint hd).early i hi

theorem Stages.early_compared (hi : i < m.units.length) : s.units[i]? = m.units[i]? := by
  refine (h.compared.kept i fun j hmem => ?_).1.trans (h.early_passes hi)
  exact absurd ((h.tables.claims.mem i j).mp hmem).2.1 (Nat.not_le.mpr hi)

theorem Stages.early (hi : i < m.units.length) : r.units[i]? = m.units[i]? := by
  have hnot : i ∉ retired := fun hmem => absurd hi (Nat.not_lt.mpr (h.le_of_mem hmem))
  have hplace : (without retired s.units)[renumber retired i]? = s.units[i]? :=
    getElem?_without_renumber h.nodup hnot
  rw [renumber_of_lt (fun j => h.le_of_mem) hi] at hplace
  rw [h.removed]
  exact hplace.trans (h.early_compared hi)

/-- A unit that is to be compared is the one to which its name leads. -/
theorem Stages.get?_of_mem (hmem : (i, j) ∈ todo.aliases) (hu : q.units[i]? = some u) :
    q.names.get? u.name = some i := by
  obtain ⟨-, -, name, hname, -⟩ := (h.tables.claims.mem i j).mp hmem
  obtain ⟨v, hv, rfl⟩ := h.tables.named name i hname
  rw [hu] at hv
  cases hv
  exact hname

/-- **Where a name leads in the end**: to the earlier unit if the late unit of the name retires
for it, and else to the unit to which it has led. -/
theorem Stages.leads (hj : q.names.get? name = some j) :
    (∃ i, (j, i) ∈ todo.aliases ∧ Retires q (j, i) ∧ m.findUnit? name = some i ∧
        r.names.get? name = some i ∧ r.units[i]? = m.units[i]?) ∨
      j ∉ retired ∧ r.names.get? name = some (renumber retired j) ∧
        r.units[renumber retired j]? = s.units[j]? := by
  obtain ⟨u, hu, rfl⟩ := h.tables.named name j hj
  have hnames : r.names.get? u.name = (s.names.get? u.name).map (renumber retired) := by
    rw [h.removed]
    exact Table.get?_map ..
  by_cases hmem : j ∈ retired
  · obtain ⟨i, hi, hretires⟩ := (h.compared.mem j).mp hmem
    have hfound := h.tables.comparable.known j i u hi hu
    have hlt := Model.getLast?_places_lt hfound
    refine .inl ⟨i, hi, hretires, hfound, ?_, h.early hlt⟩
    rw [hnames, h.compared.back j i u hi hretires hu, Option.map_some,
      renumber_of_lt (fun k => h.le_of_mem) hlt]
  · refine .inr ⟨hmem, ?_, ?_⟩
    · rw [hnames, h.compared.names u.name fun k l v hk hretires hv hname => ?_, hj, Option.map_some]
      have hjk := h.get?_of_mem hk hv
      rw [hname, hj] at hjk
      cases hjk
      exact hmem ((h.compared.mem j).mpr ⟨l, hk, hretires⟩)
    · rw [h.removed]
      exact getElem?_without_renumber h.nodup hmem

/-- **Names lead to units of these names in the end**, though places have changed. -/
theorem Stages.named : r.Named := by
  intro name k hk
  cases hq : q.names.get? name with
  | none =>
    have hs := h.compared.names name fun i j u hmem _ hu hname => by
      have hi := h.get?_of_mem hmem hu
      rw [hname, hq] at hi
      cases hi
    have hr : r.names.get? name = (s.names.get? name).map (renumber retired) := by
      rw [h.removed]
      exact Table.get?_map ..
    rw [hr, hs, hq] at hk
    cases hk
  | some j =>
    rcases h.leads hq with ⟨i, -, -, hfound, hi, hunit⟩ | ⟨-, hi, hunit⟩
    · rw [hk] at hi
      cases hi
      rw [hunit]
      exact Model.exists_of_findUnit? hfound
    · rw [hk] at hi
      cases hi
      obtain ⟨u, hu, hname⟩ := h.tables.named name j hq
      rw [hunit]
      rcases h.compared.unit_cases hu with ⟨-, hs⟩ | ⟨i, -, -, hs⟩
      · exact ⟨u, hs, hname⟩
      · exact ⟨_, hs, hname⟩

/-- What the passes make of a late unit: it has the meaning of its declaration, or is as it was
declared. -/
theorem Stages.passed_cases (hi : m.units.length ≤ i) (hu : q.units[i]? = some u) :
    ∃ d ∈ us, ∃ redeclared, u = fresh options d redeclared ∨
      ∃ e, encodeUnit q.toScope (d.kind.getD options.kind) d = .ok e ∧
        u = complete options d e (fresh options d redeclared) := by
  obtain ⟨p, r', deferred, hd, hstuck, rfl⟩ := h.passes
  have hlt := lt_of_getElem? hu
  rw [(hstuck.isFixedPoint hd).length] at hlt
  obtain ⟨l, rfl⟩ := Nat.exists_eq_add_of_le hi
  obtain ⟨d, hl⟩ : ∃ d, us[l]? = some d :=
    ⟨_, getElem?_eq_getElem (Nat.lt_of_add_lt_add_left hlt)⟩
  refine ⟨d, mem_of_getElem? hl, ?_⟩
  obtain ⟨redeclared, ⟨-, ⟨e, he, -, hu'⟩ | ⟨-, -, hu'⟩⟩ | ⟨-, -, hu'⟩⟩ := hstuck.late hd hl
  · exact ⟨redeclared, .inr ⟨e, he, Option.some.inj (hu.symm.trans hu')⟩⟩
  · exact ⟨redeclared, .inl (Option.some.inj (hu.symm.trans hu'))⟩
  · exact ⟨redeclared, .inl (Option.some.inj (hu.symm.trans hu'))⟩

/-- What the comparison and the removal leave of a unit: it is as it was, or has lost its meaning. -/
theorem Stages.left_cases {k : Nat} (hu : r.units[k]? = some u) :
    ∃ i v, i ∉ retired ∧ renumber retired i = k ∧ q.units[i]? = some v ∧
      (u = v ∧ r.states[k]? = q.states[i]? ∨
        u = { v with valid := false } ∧ ∃ why, r.states[k]? = some (.failed why)) := by
  rw [h.removed] at hu ⊢
  obtain ⟨i, hstays, rfl, hi⟩ := exists_of_getElem?_without h.nodup hu
  have hstate : (removeUnits retired s).states[renumber retired i]? = s.states[i]? :=
    getElem?_without_renumber h.nodup hstays
  obtain ⟨v, hv⟩ := h.compared.exists_unit hi
  refine ⟨i, v, hstays, rfl, hv, ?_⟩
  rw [hstate]
  rcases h.compared.unit_cases hv with ⟨hnone, hv'⟩ | ⟨j, hmem, hclash, hv'⟩
  · exact .inl ⟨Option.some.inj (hi.symm.trans hv'), (h.compared.kept i hnone).2⟩
  · exact .inr ⟨Option.some.inj (hi.symm.trans hv'), (h.compared.refused i j hmem hclash).2⟩

/-- **What a late unit is in the end**: what its declaration means for the passes, with or without
its meaning, or as it was declared. -/
theorem Stages.late_cases (hk : m.units.length ≤ k) (hu : r.units[k]? = some u) :
    ∃ d ∈ us, ∃ redeclared, u = fresh options d redeclared ∨
      ∃ e valid, encodeUnit q.toScope (d.kind.getD options.kind) d = .ok e ∧
        u = { complete options d e (fresh options d redeclared) with valid } := by
  obtain ⟨i, v, -, rfl, hv, huv⟩ := h.left_cases hu
  obtain ⟨d, hd, redeclared, rfl | ⟨e, he, rfl⟩⟩ := h.passed_cases (h.le_renumber.mp hk) hv
  · rcases huv with ⟨rfl, -⟩ | ⟨rfl, -⟩
    · exact ⟨d, hd, redeclared, .inl rfl⟩
    · exact ⟨d, hd, redeclared, .inl rfl⟩
  · refine ⟨d, hd, redeclared, .inr ?_⟩
    rcases huv with ⟨rfl, -⟩ | ⟨rfl, -⟩
    · exact ⟨e, true, he, rfl⟩
    · exact ⟨e, false, he, rfl⟩

end Stages

end Quantity.Elaborate
