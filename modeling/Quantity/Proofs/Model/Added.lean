import Quantity.Proofs.Model.Reused
import Quantity.Proofs.Model.Scales

/-!
# What declarations add

Whatever is wrong with declarations, the entries of the model at hand stay where they are and as
they are, even if late units are removed again. `adds_of_elaborate` says so: the late entries are
put behind them, none of them in a family yet, and a late scale has a meaning only if its unit has
one.
-/

namespace Quantity.Elaborate

open Model List

variable {options : Options} {m e : Model} {ds ds' : Diagnostics} {us : List UnitDecl}
  {p q r : Progress} {todo : Todo}

/-! ### Units -/

/-- **Units under way behind those of a model**, which are left alone. -/
structure Behind (m : Model) (p : Progress) : Prop where
  length : p.states.length = p.units.length
  early : ∀ i < m.units.length, p.units[i]? = m.units[i]?
  late : ∀ (i : Nat) (u : UnitEntry), m.units.length ≤ i → p.units[i]? = some u → u.family = none
  done : ∀ (i : Nat) (u : UnitEntry), p.units[i]? = some u → p.states[i]? = some .done →
    u.valid = true

theorem Behind.exists_late (h : Behind m p) :
    ∃ late, p.units = m.units ++ late ∧ ∀ u ∈ late, u.family = none := by
  refine ⟨p.units.drop m.units.length, ?_, fun u hu => ?_⟩
  · have htake : p.units.take m.units.length = m.units := by
      refine ext_getElem? fun i => ?_
      rw [getElem?_take]
      split_ifs with hi
      · exact h.early i hi
      · exact (getElem?_eq_none (Nat.le_of_not_lt hi)).symm
    rw [← take_append_drop m.units.length p.units, htake]
    simp
  · obtain ⟨k, hk⟩ := mem_iff_getElem?.mp hu
    rw [getElem?_drop] at hk
    exact h.late _ u (Nat.le_add_right _ _) hk

section Stages

variable {s : Progress} {retired : List Nat} (h : Stages options m us q todo s retired r)
include h

theorem Stages.valid_of_done {i : Nat} (hu : q.units[i]? = some u)
    (hs : q.states[i]? = some .done) : u.valid = true := by
  obtain ⟨p, r', deferred, hd, hstuck, rfl⟩ := h.passes
  by_cases hi : i < m.units.length
  · have hadv := hstuck.advances
    rw [(hadv.settled i (hd.early_state i hi)).1] at hs
    rw [(hstuck.isFixedPoint hd).early i hi] at hu
    exact hd.early_done i u hu hs
  · rcases (hstuck.isFixedPoint hd).states i u (Nat.le_of_not_lt hi) hu with
      ⟨-, hu⟩ | ⟨⟨why, hs'⟩, -⟩
    · exact hu
    · rw [hs] at hs'
      cases hs'

theorem Stages.behind : Behind m r where
  length := by
    have hlength : s.states.length = s.units.length := by
      obtain ⟨p, r', deferred, hd, hstuck, rfl⟩ := h.passes
      have hadv := hstuck.advances
      rw [h.compared.length.1, h.compared.length.2, hadv.length, hadv.length_units,
        hd.length_states]
    rw [h.removed]
    show (without _ _).length = (without _ _).length
    rw [length_without_eq h.nodup, length_without_eq h.nodup, hlength]
  early _ := h.early
  late k u hk hu := by
    obtain ⟨d, -, redeclared, rfl | ⟨e, valid, -, rfl⟩⟩ := h.late_cases hk hu
    · rfl
    · rfl
  done k u hu hs := by
    obtain ⟨i, v, -, -, hv, ⟨rfl, hstate⟩ | ⟨-, why, hstate⟩⟩ := h.left_cases hu
    · exact h.valid_of_done hv (hstate.symm.trans hs)
    · rw [hs] at hstate
      cases hstate

end Stages

/-! ### Scales -/

/-- A late scale is in no family, and has a meaning only if its unit has one. -/
def IsLate (units : List UnitEntry) (s : ScaleEntry) : Prop :=
  s.family = none ∧ (s.valid = true → ∃ i u, s.unit = some i ∧ units[i]? = some u ∧ u.valid = true)

/-- The scale of a declaration, with its meaning or without. -/
def IsScaleOf (options : Options) (scope : Scope) (d : ScaleDecl) (s : ScaleEntry) : Prop :=
  s = bareScale options scope d ∨ encodeScale scope d (bareScale options scope d) = .ok s

/-- **What one declaration does**: a scale is added, which has a meaning, or has none and a reason
is reported. -/
theorem declareScale_cases (options : Options) (lateUnits lateScales : Nat) (scope : Scope)
    (x : ScaleProgress) (d : ScaleDecl) :
    (∃ s, scaleNameError? options lateUnits lateScales scope x.names d = none ∧
        encodeScale scope d (bareScale options scope d) = .ok s ∧
        (declareScale options lateUnits lateScales scope x d).scales = x.scales ++ [s] ∧
        (declareScale options lateUnits lateScales scope x d).diagnostics = x.diagnostics) ∨
      ∃ why, (scaleNameError? options lateUnits lateScales scope x.names d = some why ∨
          encodeScale scope d (bareScale options scope d) = .error why) ∧
        (declareScale options lateUnits lateScales scope x d).scales =
          x.scales ++ [bareScale options scope d] ∧
        (declareScale options lateUnits lateScales scope x d).diagnostics =
          x.diagnostics.push why := by
  unfold declareScale
  dsimp only
  split
  · rename_i why hwhy
    exact .inr ⟨why, .inl hwhy, rfl, rfl⟩
  · rename_i hname
    split
    · rename_i s hs
      exact .inl ⟨s, hname, hs, rfl, rfl⟩
    · rename_i why hwhy
      exact .inr ⟨why, .inr hwhy, rfl, rfl⟩

theorem exists_declareScale (options : Options) (lateUnits lateScales : Nat) (scope : Scope)
    (x : ScaleProgress) (d : ScaleDecl) :
    ∃ s, (declareScale options lateUnits lateScales scope x d).scales = x.scales ++ [s] ∧
      IsScaleOf options scope d s := by
  rcases declareScale_cases options lateUnits lateScales scope x d with
    ⟨s, -, hs, hscales, -⟩ | ⟨why, -, hscales, -⟩
  · exact ⟨s, hscales, .inr hs⟩
  · exact ⟨_, hscales, .inl rfl⟩

theorem exists_declareScales (options : Options) (lateUnits lateScales : Nat) (scope : Scope)
    (decls : List ScaleDecl) (x : ScaleProgress) :
    ∃ added,
      (decls.foldl (declareScale options lateUnits lateScales scope) x).scales =
        x.scales ++ added ∧
      List.Forall₂ (IsScaleOf options scope) decls added := by
  induction decls generalizing x with
  | nil => exact ⟨[], (append_nil _).symm, .nil⟩
  | cons d decls ih =>
    obtain ⟨s, hs, hscale⟩ := exists_declareScale options lateUnits lateScales scope x d
    obtain ⟨added, hadded, hall⟩ := ih (declareScale options lateUnits lateScales scope x d)
    refine ⟨s :: added, ?_, .cons hscale hall⟩
    rw [foldl_cons, hadded, hs, List.append_assoc, singleton_append]

theorem exists_isScaleOf (h : List.Forall₂ (IsScaleOf options scope) decls added)
    (hs : s ∈ added) : ∃ d ∈ decls, IsScaleOf options scope d s :=
  exists_of_forall₂ h.flip hs

theorem Behind.isLate (h : Behind m p) (hs : IsScaleOf options p.toScope d s) :
    IsLate p.units s := by
  rcases hs with rfl | hs
  · exact ⟨rfl, nofun⟩
  · obtain ⟨i, u, offset, hi, hstate, hu, -, rfl⟩ := encodeScale_eq_ok_iff.mp hs
    exact ⟨rfl, fun _ => ⟨i, u, hi, hu, h.done i u hu (getElem?_of_state_done hstate)⟩⟩

/-! ### All declarations -/

/-- **What is added to a model**: late entries behind its own. -/
structure Adds (m e : Model) (us : List UnitEntry) (ss : List ScaleEntry) : Prop where
  eq : e = { m with units := m.units ++ us, scales := m.scales ++ ss }
  units : ∀ u ∈ us, u.family = none
  scales : ∀ s ∈ ss, IsLate (m.units ++ us) s

theorem Adds.mem_of_family_unit {us : List UnitEntry} (h : Adds m e us ss) (hu : u ∈ e.units)
    (hf : u.family = some f) : u ∈ m.units := by
  rw [h.eq] at hu
  rcases mem_append.mp hu with hu | hu
  · exact hu
  · rw [h.units u hu] at hf
    cases hf

theorem Adds.mem_of_family_scale {us : List UnitEntry} (h : Adds m e us ss) (hs : s ∈ e.scales)
    (hf : s.family = some f) : s ∈ m.scales := by
  rw [h.eq] at hs
  rcases mem_append.mp hs with hs | hs
  · exact hs
  · rw [(h.scales s hs).1] at hf
    cases hf

/-- **Declarations add entries to a model and change none.** -/
theorem adds_of_elaborate (hlate : m.lateUnits = m.units.length)
    (h : elaborate options m ds decls = .ok (e, ds')) : ∃ us ss, Adds m e us ss := by
  obtain ⟨p, hp, -⟩ := bind_eq_ok_iff.mp h
  obtain ⟨_, _, _, _, hstages⟩ := exists_stages hlate hp
  obtain ⟨us, hunits, hfamily⟩ := hstages.behind.exists_late
  obtain ⟨ss, hscales, hall⟩ := exists_declareScales options m.lateUnits m.lateScales p.toScope
    decls.scales ⟨m.scales, scaleNames m, p.diagnostics⟩
  rw [elaborate_eq hp, hscales, hunits, Except.ok.injEq, Prod.mk.injEq] at h
  refine ⟨us, ss, h.1.symm, hfamily, fun s hs => ?_⟩
  obtain ⟨d, -, hscale⟩ := exists_isScaleOf hall hs
  rw [← hunits]
  exact hstages.behind.isLate hscale

end Quantity.Elaborate
