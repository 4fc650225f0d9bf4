import Quantity.Proofs.Model.Encoded
import Quantity.Proofs.Model.Places
import Mathlib.Logic.Relation
import Mathlib.Data.List.Nodup

/-!
# Encoding units in passes

Whatever the passes do, they do in steps: a unit that waits at its place is encoded against
what is known by then, or fails (`Settles`). `ends_encodeUnits` says how the passes end: after
a run of such steps, either all units that still wait refer to units that wait and are given
up, or some definition is no product.
-/

namespace Quantity.Elaborate

open Relation List

/-! ### One step -/

/-- The progress after the unit at a place got its meaning. -/
def Progress.finish (options : Options) (p : Progress) (i : Nat) (d : UnitDecl) (e : Encoded) :
    Progress :=
  { p.modifyUnit i (complete options d e) with states := p.states.set i .done }

/-- A unit that waits at its place is encoded against what is known, or fails. -/
inductive Settles (options : Options) (i : Nat) (d : UnitDecl) (p : Progress) : Progress → Prop
  | finish {e : Encoded} (hs : p.states[i]? = some .pending)
      (he : encodeUnit p.toScope (d.kind.getD options.kind) d = .ok e) :
      Settles options i d p (p.finish options i d e)
  | fail {why : Diagnostic} (hs : p.states[i]? = some .pending)
      (he : encodeUnit p.toScope (d.kind.getD options.kind) d = .error (.failed why)) :
      Settles options i d p (p.fail i why)

/-- Some of the units settle one after the other. -/
def Run (options : Options) (todo : List (Nat × UnitDecl)) : Progress → Progress → Prop :=
  ReflTransGen fun p q => ∃ i d, (i, d) ∈ todo ∧ Settles options i d p q

theorem Run.mono (h : Run options todo p q) (hsub : todo ⊆ todo') : Run options todo' p q :=
  ReflTransGen.mono (fun _ _ ⟨i, d, hmem, hstep⟩ => ⟨i, d, hsub hmem, hstep⟩) _ _ h

theorem Settles.run (h : Settles options i d p q) (hmem : (i, d) ∈ todo) : Run options todo p q :=
  .single ⟨i, d, hmem, h⟩

/-- Only units that wait change, and they keep their names and kinds. -/
structure Advances (p q : Progress) : Prop where
  names : q.names = p.names
  length : q.states.length = p.states.length
  kinds : q.units.map (·.kind) = p.units.map (·.kind)
  settled : ∀ i : Nat, p.states[i]? ≠ some .pending →
    q.states[i]? = p.states[i]? ∧ q.units[i]? = p.units[i]?

namespace Advances

variable {p q r : Progress}

theorem refl (p : Progress) : Advances p p := ⟨rfl, rfl, rfl, fun _ _ => ⟨rfl, rfl⟩⟩

theorem trans (h : Advances p q) (h' : Advances q r) : Advances p r where
  names := h'.names.trans h.names
  length := h'.length.trans h.length
  kinds := h'.kinds.trans h.kinds
  settled i hi := by
    obtain ⟨hs, hu⟩ := h.settled i hi
    obtain ⟨hs', hu'⟩ := h'.settled i (hs ▸ hi)
    exact ⟨hs'.trans hs, hu'.trans hu⟩

theorem length_units (h : Advances p q) : q.units.length = p.units.length := by
  simpa using congrArg List.length h.kinds

theorem kind (h : Advances p q) (i : Nat) :
    q.units[i]?.map (·.kind) = p.units[i]?.map (·.kind) := by
  rw [← getElem?_map, h.kinds, getElem?_map]

theorem pending (h : Advances p q) {i : Nat} (hi : q.states[i]? = some .pending) :
    p.states[i]? = some .pending := by
  by_contra hp
  exact hp ((h.settled i hp).1 ▸ hi)

theorem grows (h : Advances p q) (names : List String) : p.toScope.Grows q.toScope names := by
  intro name _
  cases hn : p.names.get? name with
  | none => exact .inr (Scope.lookup_unknown hn (h.names ▸ hn))
  | some i =>
    by_cases hi : p.states[i]? = some .pending
    · exact .inl (Scope.lookup_eq_pending hn hi)
    · obtain ⟨hs, hu⟩ := h.settled i hi
      exact .inr (Scope.lookup_congr hn (h.names ▸ hn) hs hu)

end Advances

theorem Settles.elsewhere (h : Settles options i d p q) (hij : j ≠ i) :
    q.states[j]? = p.states[j]? ∧ q.units[j]? = p.units[j]? := by
  cases h with
  | finish _ _ =>
    exact ⟨getElem?_set_ne hij.symm, getElem?_modify_ne _ _ hij.symm⟩
  | fail _ _ => exact ⟨getElem?_set_ne hij.symm, rfl⟩

theorem Settles.advances (h : Settles options i d p q) : Advances p q where
  names := by cases h <;> rfl
  length := by cases h <;> exact length_set ..
  kinds := by
    cases h with
    | finish _ _ =>
      refine ext_getElem? fun j => ?_
      show ((p.units.modify i _).map _)[j]? = _
      rw [getElem?_map, getElem?_map, getElem?_modify]
      cases p.units[j]? with
      | none => rfl
      | some u => by_cases hij : i = j <;> simp [hij, complete]
    | fail _ _ => rfl
  settled j hj := by
    refine h.elsewhere ?_
    rintro rfl
    cases h <;> exact hj ‹_›

theorem Run.advances (h : Run options todo p q) : Advances p q := by
  induction h with
  | refl => exact .refl _
  | tail _ hstep ih =>
    obtain ⟨i, d, -, hstep⟩ := hstep
    exact ih.trans hstep.advances

theorem Run.elsewhere (h : Run options todo p q) (hj : ∀ d, (j, d) ∉ todo) :
    q.states[j]? = p.states[j]? ∧ q.units[j]? = p.units[j]? := by
  induction h with
  | refl => exact ⟨rfl, rfl⟩
  | tail _ hstep ih =>
    obtain ⟨i, d, hmem, hstep⟩ := hstep
    have hij : j ≠ i := by
      rintro rfl
      exact hj d hmem
    exact ⟨(hstep.elsewhere hij).1.trans ih.1, (hstep.elsewhere hij).2.trans ih.2⟩

theorem Settles.not_pending (h : Settles options i d p q) : q.states[i]? ≠ some .pending := by
  cases h with
  | finish hs _ =>
    show (p.states.set i _)[i]? ≠ _
    rw [List.getElem?_set_self (lt_of_getElem? hs)]
    exact nofun
  | fail hs _ =>
    show (p.states.set i _)[i]? ≠ _
    rw [List.getElem?_set_self (lt_of_getElem? hs)]
    exact nofun

/-! ### One pass -/

/-- The declarations of different units wait at their places. -/
structure Awaits (options : Options) (p : Progress) (todo : List (Nat × UnitDecl)) : Prop where
  nodup : (todo.map (·.1)).Nodup
  pending : ∀ i d, (i, d) ∈ todo → p.states[i]? = some .pending
  kind : ∀ i d, (i, d) ∈ todo → p.units[i]?.map (·.kind) = some (d.kind.getD options.kind)

namespace Awaits

variable {options : Options} {p q : Progress} {todo todo' : List (Nat × UnitDecl)} {i : Nat}
  {d : UnitDecl}

theorem advance (h : Awaits options p todo) (hsub : todo'.Sublist todo) (hq : Advances p q)
    (hpending : ∀ i d, (i, d) ∈ todo' → q.states[i]? = some .pending) :
    Awaits options q todo' where
  nodup := h.nodup.sublist (hsub.map _)
  pending := hpending
  kind i d hmem := (hq.kind i).trans (h.kind i d (hsub.subset hmem))

theorem tail (h : Awaits options p ((i, d) :: todo)) : Awaits options p todo :=
  h.advance (sublist_cons_self _ _) (.refl p)
    fun i' d' hmem => h.pending i' d' (mem_cons_of_mem _ hmem)

theorem ne_of_mem (h : Awaits options p ((i, d) :: todo)) (hmem : (i', d') ∈ todo) : i' ≠ i := by
  rintro rfl
  exact (nodup_cons.mp h.nodup).1 (mem_map.mpr ⟨_, hmem, rfl⟩)

theorem settle (h : Awaits options p ((i, d) :: todo)) (hstep : Settles options i d p q) :
    Awaits options q todo :=
  h.advance (sublist_cons_self _ _) hstep.advances fun i' d' hmem =>
    (hstep.elsewhere (h.ne_of_mem hmem)).1.trans (h.pending i' d' (mem_cons_of_mem _ hmem))

end Awaits

/-- The place and the declaration that waits there. -/
def Deferred.entry (y : Deferred) : Nat × UnitDecl := (y.place, y.decl)

/-- The declaration waits for the unit it is listed with. -/
def Deferred.Waits (options : Options) (s : Scope) (y : Deferred) : Prop :=
  encodeUnit s (y.decl.kind.getD options.kind) y.decl = .error (.deferred y.name y.span)

/-- Units settle, and those that still wait are listed. -/
structure Leaves (options : Options) (todo : List (Nat × UnitDecl)) (p q : Progress)
    (deferred : List Deferred) : Prop where
  run : Run options todo p q
  sublist : (deferred.map Deferred.entry).Sublist todo
  left : ∀ i d, (i, d) ∈ todo →
    (q.states[i]? = some .pending ↔ (i, d) ∈ deferred.map Deferred.entry)

/-- What one pass does. If it settles no unit then nothing has changed. -/
structure Passes (options : Options) (todo : List (Nat × UnitDecl)) (p q : Progress)
    (deferred : List Deferred) : Prop extends Leaves options todo p q deferred where
  stuck : deferred.length = todo.length → q = p ∧ ∀ y ∈ deferred, y.Waits options p.toScope

/-- Some definition fails internally after a run of steps. -/
def Breaks (options : Options) (todo : List (Nat × UnitDecl)) (p : Progress) : Prop :=
  ∃ r i d message, Run options todo p r ∧ (i, d) ∈ todo ∧
    encodeUnit r.toScope (d.kind.getD options.kind) d = .error (.internal message)

theorem Breaks.of_run (hrun : Run options todo p q) (hsub : todo' ⊆ todo)
    (h : Breaks options todo' q) : Breaks options todo p := by
  obtain ⟨r, i, d, message, hrun', hmem, he⟩ := h
  exact ⟨r, i, d, message, ReflTransGen.trans hrun (hrun'.mono hsub), hsub hmem, he⟩

section Pass

variable {options : Options} {p q r : Progress} {todo : List (Nat × UnitDecl)} {i : Nat}
  {d : UnitDecl} {deferred : List Deferred}

theorem Passes.settle (hw : Awaits options p ((i, d) :: todo)) (hstep : Settles options i d p q)
    (h : Passes options todo q r deferred) : Passes options ((i, d) :: todo) p r deferred where
  run := (hstep.run (mem_cons_self ..)).trans (h.run.mono (subset_cons_self _ _))
  sublist := h.sublist.cons _
  left i' d' hmem := by
    rcases mem_cons.mp hmem with heq | hmem
    · cases heq
      -- the unit is settled, so it neither waits nor stands in the list
      refine iff_of_false ?_ ?_
      · rw [(h.run.advances.settled i hstep.not_pending).1]
        exact hstep.not_pending
      · exact fun hd => hw.ne_of_mem (h.sublist.subset hd) rfl
    · exact h.left i' d' hmem
  stuck hlen := by
    have := h.sublist.length_le
    simp only [length_map, length_cons] at this hlen
    omega

theorem Passes.defer {span : Span} (hw : Awaits options p ((i, d) :: todo))
    (he : encodeUnit p.toScope (d.kind.getD options.kind) d = .error (.deferred name span))
    (h : Passes options todo p r deferred) :
    Passes options ((i, d) :: todo) p r (⟨i, d, name, span⟩ :: deferred) where
  run := h.run.mono (subset_cons_self _ _)
  sublist := h.sublist.cons_cons _
  left i' d' hmem := by
    rcases mem_cons.mp hmem with heq | hmem
    · cases heq
      refine iff_of_true ?_ (mem_cons_self ..)
      rw [(h.run.elsewhere fun d' hmem => hw.ne_of_mem hmem rfl).1]
      exact hw.pending i d (mem_cons_self ..)
    · rw [h.left i' d' hmem, map_cons, mem_cons]
      refine ⟨.inr, fun hd => hd.resolve_left ?_⟩
      exact fun heq => hw.ne_of_mem hmem (congrArg Prod.fst heq)
  stuck hlen := by
    obtain ⟨rfl, hwaits⟩ := h.stuck (Nat.succ.inj hlen)
    exact ⟨rfl, forall_mem_cons.mpr ⟨he, hwaits⟩⟩

/-- How a pass ends: some units settle, or a definition fails internally. -/
def PassEnds (options : Options) (todo : List (Nat × UnitDecl)) (p : Progress) :
    Except CompileError (Progress × List Deferred) → Prop
  | .ok (q, deferred) => Passes options todo p q deferred
  | .error _ => Breaks options todo p

/-- **Every pass ends in one of these ways.** -/
theorem passEnds_encodePass (hw : Awaits options p todo) :
    PassEnds options todo p (encodePass options p todo) := by
  induction todo generalizing p with
  | nil => exact ⟨⟨.refl, .slnil, nofun⟩, fun _ => ⟨rfl, nofun⟩⟩
  | cons x more ih =>
    obtain ⟨i, d⟩ := x
    have hs := hw.pending i d (mem_cons_self ..)
    have hkind : (p.units[i]?.map (·.kind)).getD options.kind = d.kind.getD options.kind := by
      rw [hw.kind i d (mem_cons_self ..), Option.getD_some]
    unfold encodePass
    rw [hkind]
    have hsettle {q : Progress} (hstep : Settles options i d p q) :
        PassEnds options ((i, d) :: more) p (encodePass options q more) := by
      have h := ih (hw.settle hstep)
      cases hpass : encodePass options q more with
      | ok r =>
        rw [hpass] at h
        exact Passes.settle hw hstep h
      | error e =>
        rw [hpass] at h
        exact h.of_run (hstep.run (mem_cons_self ..)) (subset_cons_self _ _)
    cases he : encodeUnit p.toScope (d.kind.getD options.kind) d with
    | ok e => exact hsettle (.finish hs he)
    | error f =>
      cases f with
      | failed why => exact hsettle (.fail hs he)
      | internal message => exact ⟨p, i, d, message, .refl, mem_cons_self .., he⟩
      | deferred name span =>
        have h := ih hw.tail
        cases hpass : encodePass options p more with
        | ok r =>
          rw [hpass] at h
          exact Passes.defer hw he h
        | error e =>
          rw [hpass] at h
          exact h.of_run .refl (subset_cons_self _ _)

end Pass

/-! ### All passes -/

/-- Give up the units that are still waiting. -/
def giveUp (deferred : List Deferred) (p : Progress) : Progress :=
  deferred.foldl (fun p y => p.fail y.place (unitError y.span (.unresolved y.name))) p

/-- No unit can settle any more. -/
structure Stuck (options : Options) (todo : List (Nat × UnitDecl)) (p q : Progress)
    (deferred : List Deferred) : Prop extends Leaves options todo p q deferred where
  waits : ∀ y ∈ deferred, y.Waits options q.toScope

/-- How all passes end: units settle as long as any of them can, and the others are given up;
or a definition fails internally. -/
def Ends (options : Options) (todo : List (Nat × UnitDecl)) (p : Progress) :
    Except CompileError Progress → Prop
  | .ok q => ∃ r deferred, Stuck options todo p r deferred ∧ q = giveUp deferred r
  | .error _ => Breaks options todo p

section Passes

variable {options : Options} {p q r : Progress} {todo : List (Nat × UnitDecl)}
  {deferred deferred' : List Deferred}

theorem Leaves.awaits (h : Leaves options todo p q deferred) (hw : Awaits options p todo) :
    Awaits options q (deferred.map Deferred.entry) :=
  hw.advance h.sublist h.run.advances
    fun i d hmem => (h.left i d (h.sublist.subset hmem)).mpr hmem

theorem Stuck.of_leaves (h : Leaves options todo p q deferred)
    (h' : Stuck options (deferred.map Deferred.entry) q r deferred') :
    Stuck options todo p r deferred' where
  run := h.run.trans (h'.run.mono h.sublist.subset)
  sublist := h'.sublist.trans h.sublist
  left i d hmem := by
    by_cases hd : (i, d) ∈ deferred.map Deferred.entry
    · exact h'.left i d hd
    · refine iff_of_false ?_ fun hd' => hd (h'.sublist.subset hd')
      exact fun hi => hd ((h.left i d hmem).mp (h'.run.advances.pending hi))
  waits := h'.waits

/-- **The passes end in one of these ways.** -/
theorem ends_encodeUnits (hw : Awaits options p todo) :
    Ends options todo p (encodeUnits options p todo) := by
  induction hn : todo.length using Nat.strongRecOn generalizing p todo with
  | ind n ih =>
    have h := passEnds_encodePass hw
    unfold encodeUnits
    cases hpass : encodePass options p todo with
    | error e =>
      rw [hpass] at h
      exact h
    | ok r =>
      obtain ⟨q, deferred⟩ := r
      rw [hpass] at h
      dsimp only
      split_ifs with hempty hlt
      · rw [List.isEmpty_iff] at hempty
        subst hempty
        exact ⟨q, [], ⟨h.toLeaves, nofun⟩, rfl⟩
      · have hend := ih (deferred.map Deferred.entry).length (by simpa [← hn] using hlt)
          (h.awaits hw) rfl
        show Ends options todo p (encodeUnits options q (deferred.map Deferred.entry))
        cases hrest : encodeUnits options q (deferred.map Deferred.entry) with
        | ok r =>
          rw [hrest] at hend
          obtain ⟨r, deferred', hstuck, rfl⟩ := hend
          exact ⟨r, deferred', .of_leaves h.toLeaves hstuck, rfl⟩
        | error e =>
          rw [hrest] at hend
          exact hend.of_run h.run h.sublist.subset
      · have hle := h.sublist.length_le
        rw [length_map] at hle
        obtain ⟨rfl, hwaits⟩ := h.stuck (Nat.le_antisymm hle (Nat.le_of_not_lt hlt))
        exact ⟨q, deferred, ⟨h.toLeaves, hwaits⟩, rfl⟩

end Passes

/-! ### Giving up -/

@[simp] theorem units_giveUp (deferred : List Deferred) (p : Progress) :
    (giveUp deferred p).units = p.units := by
  induction deferred generalizing p with
  | nil => rfl
  | cons y ys ih => exact ih _

@[simp] theorem names_giveUp (deferred : List Deferred) (p : Progress) :
    (giveUp deferred p).names = p.names := by
  induction deferred generalizing p with
  | nil => rfl
  | cons y ys ih => exact ih _

@[simp] theorem length_states_giveUp (deferred : List Deferred) (p : Progress) :
    (giveUp deferred p).states.length = p.states.length := by
  induction deferred generalizing p with
  | nil => rfl
  | cons y ys ih => exact (ih _).trans (length_set ..)

theorem done_of_giveUp {i : Nat} (h : (giveUp deferred p).states[i]? = some .done) :
    p.states[i]? = some .done := by
  induction deferred generalizing p with
  | nil => exact h
  | cons y ys ih =>
    have h : (p.states.set y.place _)[i]? = some .done := ih h
    rw [getElem?_set] at h
    split_ifs at h
    · cases h
    · exact h

theorem states_giveUp_of_not_mem (hi : i ∉ deferred.map (·.place)) :
    (giveUp deferred p).states[i]? = p.states[i]? := by
  induction deferred generalizing p with
  | nil => rfl
  | cons y ys ih =>
    rw [map_cons, mem_cons, not_or] at hi
    exact (ih hi.2).trans (getElem?_set_ne (Ne.symm hi.1))

theorem states_giveUp (hnodup : (deferred.map (·.place)).Nodup) (hy : y ∈ deferred)
    (hlt : y.place < p.states.length) :
    (giveUp deferred p).states[y.place]? =
      some (.failed (unitError y.span (.unresolved y.name))) := by
  induction deferred generalizing p with
  | nil => cases hy
  | cons x xs ih =>
    rw [map_cons, nodup_cons] at hnodup
    rcases mem_cons.mp hy with rfl | hy
    · exact (states_giveUp_of_not_mem hnodup.1).trans (List.getElem?_set_self hlt)
    · refine ih hnodup.2 hy ?_
      exact Nat.lt_of_lt_of_eq hlt (length_set ..).symm

end Quantity.Elaborate
