import Quantity.Proofs.Model.Accepted

/-!
# Names that lead to units

While units are declared, names and tags are claimed for their places. `tables_declareUnits` says
that a name always leads to a unit of this name, so that no place is looked up where there is no
unit, and where a name leads that an earlier unit has already: to the earlier unit, or to a late one
which is to be compared with it if the policy says so (`Claims`).
-/

namespace Quantity

open List

def Scope.Named (s : Scope) : Prop :=
  ∀ name i, s.names.get? name = some i → ∃ u, s.units[i]? = some u ∧ u.name = name

theorem Scope.Named.lt {s : Scope} (h : s.Named) (hi : s.names.get? name = some i) :
    i < s.units.length := by
  obtain ⟨u, hu, -⟩ := h name i hi
  exact lt_of_getElem? hu

theorem Scope.Named.congr {s t : Scope} (h : s.Named) (hnames : t.names = s.names)
    (hunits : t.units.map (·.name) = s.units.map (·.name)) : t.Named := by
  intro name i hi
  rw [hnames] at hi
  obtain ⟨u, hu, rfl⟩ := h name i hi
  exact Model.exists_getElem?_of_map_eq hunits.symm hu

namespace Model

theorem exists_of_findUnit? {m : Model} (h : m.findUnit? name = some i) :
    ∃ u, m.units[i]? = some u ∧ u.name = name := by
  obtain ⟨u, hu, hname⟩ := mem_places.mp (mem_of_getLast? h)
  exact ⟨u, hu, of_decide_eq_true hname⟩

end Model

namespace Elaborate

variable {options : Options} {m : Model} {ds : Diagnostics} {p q r : Progress} {todo todo' : Todo}
  {d : UnitDecl}

/-! ### Tags -/

/-- All places that tags lead to are places of units. -/
def TagsInRange (p : Progress) : Prop := ∀ tag i, p.tags.get? tag = some i → i < p.units.length

theorem tagsInRange_start : TagsInRange (start m ds) := by
  intro tag i hi
  rw [get?_start_tags] at hi
  exact Model.getLast?_places_lt hi

/-! ### All declarations -/

/-- **Where names lead that earlier units have**, and which late units are to be compared with
earlier ones: those that took the name of one, if the policy says so. -/
structure Claims (options : Options) (m : Model) (names : Table) (aliases : List (Nat × Nat)) :
    Prop where
  early : ∀ name i, names.get? name = some i → i < m.units.length → m.findUnit? name = some i
  known : ∀ name, names.get? name = none → m.findUnit? name = none
  mem : ∀ i j, (i, j) ∈ aliases ↔ options.redeclaration = .sameUnit ∧ m.units.length ≤ i ∧
    ∃ name, names.get? name = some i ∧ m.findUnit? name = some j
  nodup : (aliases.map (·.1)).Nodup

theorem claims_start : Claims options m (start m ds).names [] where
  early name i hi _ := by rwa [get?_start_names] at hi
  known name h := by rwa [get?_start_names] at h
  mem i j := by
    refine iff_of_false nofun ?_
    rintro ⟨-, hi, name, hname, -⟩
    rw [get?_start_names] at hname
    exact absurd (Model.getLast?_places_lt hname) (Nat.not_lt.mpr hi)
  nodup := nodup_nil

theorem get?_insert_of_mem {names : Table} (h : (names.insert d.name n).get? name = some i) :
    name = d.name ∧ i = n ∨ name ≠ d.name ∧ names.get? name = some i := by
  rw [Table.get?_insert] at h
  split_ifs at h with hname
  · exact .inl ⟨hname.symm, (Option.some.inj h).symm⟩
  · exact .inr ⟨Ne.symm hname, h⟩

/-- A place behind all units is in no pair that is to be compared. -/
theorem Claims.ne_of_mem (h : Claims options m names aliases)
    (hlt : ∀ name i, names.get? name = some i → i < n) (ha : a ∈ aliases) : a.1 ≠ n := by
  obtain ⟨-, -, name, hname, -⟩ := (h.mem a.1 a.2).mp ha
  exact Nat.ne_of_lt (hlt name a.1 hname)

/-- A new unit takes a name, and is to be compared with the earlier unit of the name if the policy
says so. -/
theorem Claims.insert (h : Claims options m names aliases)
    (hlt : ∀ name i, names.get? name = some i → i < n) (hn : m.units.length ≤ n)
    (hearly : ∀ previous, names.get? d.name = some previous → previous < m.units.length) :
    Claims options m (names.insert d.name n) (aliases ++ pairOf options n (names.get? d.name)) where
  early name i hi hlt' := by
    rcases get?_insert_of_mem hi with ⟨-, rfl⟩ | ⟨-, hi⟩
    · exact absurd hlt' (Nat.not_lt.mpr hn)
    · exact h.early name i hi hlt'
  known name hname := by
    rw [Table.get?_insert] at hname
    split_ifs at hname
    exact h.known name hname
  mem i j := by
    rw [mem_append, mem_pairOf, h.mem i j]
    constructor
    · rintro (⟨hpolicy, hi, name, hname, hj⟩ | ⟨hpolicy, rfl, hprevious⟩)
      · refine ⟨hpolicy, hi, name, ?_, hj⟩
        rw [Table.get?_insert, if_neg]
        · exact hname
        · rintro rfl
          exact absurd (hearly i hname) (Nat.not_lt.mpr hi)
      · refine ⟨hpolicy, hn, d.name, ?_, h.early _ j hprevious (hearly j hprevious)⟩
        rw [Table.get?_insert, if_pos rfl]
    · rintro ⟨hpolicy, hi, name, hname, hj⟩
      rcases get?_insert_of_mem hname with ⟨rfl, rfl⟩ | ⟨-, hname⟩
      · refine .inr ⟨hpolicy, rfl, ?_⟩
        cases hprevious : names.get? d.name with
        | none =>
          rw [h.known _ hprevious] at hj
          cases hj
        | some previous => rw [← hj, h.early _ _ hprevious (hearly _ hprevious)]
      · exact .inl ⟨hpolicy, hi, name, hname, hj⟩
  nodup := by
    rw [map_append, nodup_append]
    refine ⟨h.nodup, ?_, ?_⟩
    · unfold pairOf
      split_ifs
      · cases names.get? d.name <;> simp
      · exact nodup_nil
    · intro i hi j hj heq
      obtain ⟨a, ha, rfl⟩ := mem_map.mp hi
      obtain ⟨b, hb, rfl⟩ := mem_map.mp hj
      exact h.ne_of_mem hlt ha (heq.trans (mem_pairOf.mp hb).2.1)

section Concat

variable {late : Nat} {us : List UnitDecl}

theorem Claims.concat (h : Claims options m p.names todo.aliases)
    (hd : Declared options m us p todo)
    (hdeclares : Declares options m.units.length p todo d q todo') :
    Claims options m q.names todo'.aliases := by
  have hn : m.units.length ≤ p.units.length := by
    have := hd.length_units
    omega
  rcases hdeclares.tables with ⟨hnames, -, rfl⟩ | ⟨hname, hnames, ha, -⟩
  · rw [hnames]
    exact h
  · rw [hnames, ha]
    exact h.insert hd.names_lt hn fun previous hp => (hname previous hp).1

theorem named_concat (h : p.Named) (hdeclares : Declares options late p todo d q todo') :
    q.Named := by
  obtain ⟨redeclared, hu⟩ := hdeclares.units
  have hold (name : String) (i : Nat) (hi : p.names.get? name = some i) :
      ∃ u, q.units[i]? = some u ∧ u.name = name := by
    obtain ⟨u, hu', hname⟩ := h name i hi
    exact ⟨u, by rw [hu]; exact getElem?_append_singleton_iff.mpr (.inl hu'), hname⟩
  intro name i hi
  rcases hdeclares.tables with ⟨hn, -⟩ | ⟨-, hn, -⟩
  · exact hold name i (hn ▸ hi)
  · rw [hn] at hi
    rcases get?_insert_of_mem hi with ⟨rfl, rfl⟩ | ⟨-, hi⟩
    · exact ⟨_, by rw [hu]; exact getElem?_append_singleton_iff.mpr (.inr ⟨rfl, rfl⟩), rfl⟩
    · exact hold name i hi

/-- Tags lead to the new unit, or where they did. -/
theorem TagsInRange.concat (h : TagsInRange p)
    (hdeclares : Declares options late p todo d q todo') : TagsInRange q := by
  intro tag i hi
  obtain ⟨redeclared, hu⟩ := hdeclares.units
  rw [hu, length_append]
  rcases hdeclares.tables with ⟨-, ht, -⟩ | ⟨-, -, -, hgrants⟩
  · exact Nat.lt_succ_of_lt (h tag i (ht ▸ hi))
  · rcases hgrants tag with heq | ⟨heq, -⟩
    · exact Nat.lt_succ_of_lt (h tag i (heq ▸ hi))
    · cases heq.symm.trans hi
      exact Nat.lt_succ_self _

end Concat

/-- What holds of the tables once units are declared behind those of a model. -/
structure Tables (options : Options) (m : Model) (p : Progress) (todo : Todo) : Prop where
  named : p.Named
  claims : Claims options m p.names todo.aliases

theorem tables_start : Tables options m (start m ds) {} where
  named name i hi := by
    rw [get?_start_names] at hi
    exact Model.exists_of_findUnit? hi
  claims := claims_start

theorem Tables.concat (h : Tables options m p todo) (hd : Declared options m us p todo)
    (hdeclares : Declares options m.units.length p todo d q todo') : Tables options m q todo' :=
  ⟨named_concat h.named hdeclares, h.claims.concat hd hdeclares⟩

/-- **Names lead to units of these names, and tags to units**, whatever is declared. -/
theorem tables_declareUnits (us : List UnitDecl) (hd : Declared options m done p todo)
    (h : Tables options m p todo) (htags : TagsInRange p) :
    Tables options m (declareUnits options m.units.length p todo us).1
        (declareUnits options m.units.length p todo us).2 ∧
      TagsInRange (declareUnits options m.units.length p todo us).1 := by
  induction us generalizing done p todo with
  | nil => exact ⟨h, htags⟩
  | cons d us ih =>
    have hdeclares := declares_declareUnit options m.units.length todo d hd.length_states
    exact ih (hd.concat hdeclares) (h.concat hd hdeclares) (htags.concat hdeclares)

/-! ### Passes -/

theorem Settles.map_name (h : Settles options i d p q) :
    q.units.map (·.name) = p.units.map (·.name) := by
  cases h with
  | finish _ _ =>
    refine ext_getElem? fun j => ?_
    show ((p.units.modify i _).map _)[j]? = _
    rw [getElem?_map, getElem?_map, getElem?_modify]
    cases p.units[j]? with
    | none => rfl
    | some u => by_cases hij : i = j <;> simp [hij, complete]
  | fail _ _ => rfl

theorem Run.map_name {todo : List (Nat × UnitDecl)} (h : Run options todo p q) :
    q.units.map (·.name) = p.units.map (·.name) := by
  induction h with
  | refl => rfl
  | tail _ hstep ih =>
    obtain ⟨i, d, -, hstep⟩ := hstep
    exact hstep.map_name.trans ih

/-- **The passes leave the tables alone.** -/
theorem Stuck.tables (h : Stuck options todo.pending p r deferred) (ht : Tables options m p todo) :
    Tables options m (giveUp deferred r) todo where
  named := by
    refine ht.named.congr ?_ ?_
    · exact (names_giveUp deferred r).trans h.run.advances.names
    · rw [units_giveUp]
      exact h.run.map_name
  claims := by
    rw [names_giveUp, h.run.advances.names]
    exact ht.claims

end Elaborate

end Quantity
