import Quantity.Model.Elaborate
import Quantity.Proofs.Expr.Encoding

/-!
# The meaning of one declaration

A declaration is encoded against the names in scope. Scopes grow: a pending unit becomes done
or fails, and what is done or failed stays so. An encoding that does not wait for a unit is
the same in every later scope (`encodeUnit_stable`).
-/

namespace Quantity

open List

/-- The units that the definitions of a declaration refer to. -/
def UnitDecl.references (d : UnitDecl) : List String := d.definitions.flatMap (·.references)

theorem UnitDecl.references_subset {d : UnitDecl} (he : e ∈ d.definitions) :
    e.references ⊆ d.references :=
  fun _ hn => mem_flatMap.mpr ⟨e, he, hn⟩

namespace Scope

theorem lookup_eq_pending {s : Scope} (hi : s.names.get? name = some i)
    (hs : s.states[i]? = some .pending) : s.lookup name = .pending := by
  simp [lookup, state, hi, hs]

/-- What a name stands for depends on its unit and how far that has come only. -/
theorem lookup_congr {s t : Scope} (hi : s.names.get? name = some i)
    (hj : t.names.get? name = some j) (hs : t.states[j]? = s.states[i]?)
    (hu : t.units[j]? = s.units[i]?) :
    t.lookup name = s.lookup name ∧ t.cause? name = s.cause? name := by
  simp [lookup, cause?, state, hi, hj, hs, hu]

theorem lookup_unknown {s t : Scope} (hs : s.names.get? name = none)
    (ht : t.names.get? name = none) :
    t.lookup name = s.lookup name ∧ t.cause? name = s.cause? name := by
  simp [lookup, cause?, hs, ht]

/-- What is known of the given names in the first scope is known in the second, with the
causes of failures; only pending units may have come further. -/
def Grows (s t : Scope) (names : List String) : Prop :=
  ∀ name ∈ names,
    s.lookup name = .pending ∨ t.lookup name = s.lookup name ∧ t.cause? name = s.cause? name

theorem Grows.mono {names names' : List String} (h : Grows s t names) (hsub : names' ⊆ names) :
    Grows s t names' :=
  fun name hn => h name (hsub hn)

theorem Grows.agree {names : List String} (h : Grows s t names) :
    Expr.Agree s.lookup t.lookup names :=
  fun name hn => (h name hn).imp_right And.left

end Scope

namespace Elaborate

variable {s t : Scope} {kind : NumericKind} {d : UnitDecl}

def Failure.IsDeferred : Failure → Prop
  | .deferred _ _ => True
  | _ => False

/-- A failure of a declaration is justified: what it waits for is pending and one of its
references, it fails with an error, and it fails internally only if some definition is no
product. -/
def Failure.Justified (s : Scope) (d : UnitDecl) : Failure → Prop
  | .deferred name _ => name ∈ d.references ∧ s.lookup name = .pending
  | .failed why => why.isError = true
  | .internal _ => ¬ d.IsProduct

/-! ### One definition -/

theorem encodeDefinition_eq_ok_iff :
    encodeDefinition s owner kind e = .ok x ↔
      e.encodeDimension s.lookup = .ok x.dimension ∧
        e.encodeValue s.lookup kind = .ok x.factor := by
  unfold encodeDefinition
  cases e.encodeDimension s.lookup with
  | error err => exact ⟨nofun, nofun⟩
  | ok dimension =>
    cases e.encodeValue s.lookup kind with
    | error err => exact ⟨nofun, nofun⟩
    | ok factor =>
      cases x
      simp [Except.mapError, bind, Except.bind, pure, Except.pure]

/-- An error in a definition is one of its dimension or of its value. -/
theorem justified_of_encoded {e : Expr} {err : EncodeError}
    (h : (do
      let dimension ← e.encodeDimension s.lookup
      let factor ← e.encodeValue s.lookup kind
      return (⟨dimension, factor⟩ : Encoded)) = .error err) : err.Justified s.lookup e := by
  rcases bind_eq_error_iff.mp h with h | ⟨dimension, -, h⟩
  · exact (Expr.blames_of_encodeDimension h).justified
  · rcases bind_eq_error_iff.mp h with h | ⟨factor, -, h⟩
    · exact (Expr.blames_of_encodeValue h).justified
    · cases h

theorem encodeDefinition_stable (h : s.Grows t e.references) :
    Stable Failure.IsDeferred (encodeDefinition s owner kind e)
      (encodeDefinition t owner kind e) := by
  have hencoded : Stable EncodeError.IsPending
      (do
        let dimension ← e.encodeDimension s.lookup
        let factor ← e.encodeValue s.lookup kind
        return (⟨dimension, factor⟩ : Encoded))
      (do
        let dimension ← e.encodeDimension t.lookup
        let factor ← e.encodeValue t.lookup kind
        return (⟨dimension, factor⟩ : Encoded)) :=
    .bind (Expr.encodeDimension_stable h.agree) fun _ _ =>
      .bind (Expr.encodeValue_stable h.agree) fun _ _ => .refl _
  refine hencoded.mapError ?_ ?_
  · intro err hp
    cases err <;> first | exact trivial | exact hp.elim
  · intro err herr _
    -- only a reference to a failed unit looks at the scope again, for the cause
    have hj := justified_of_encoded herr
    cases err with
    | invalidReference name span =>
      obtain ⟨hn, hinvalid⟩ := hj
      rcases h name hn with hpending | ⟨-, hcause⟩
      · rw [hinvalid] at hpending
        cases hpending
      · simp only [failure, hcause]
    | pending _ _ => rfl
    | unresolved _ _ => rfl
    | kindMismatch _ _ _ _ => rfl
    | numeral _ _ => rfl
    | dimension _ _ => rfl
    | addsDimensions _ => rfl

theorem isError_withCause (d : Diagnostic) (cause : Option Diagnostic) :
    (withCause d cause).isError = d.isError := by
  cases cause <;> rfl

/-- What a fault in a definition means is justified as the fault is. -/
theorem justified_failure (he : e ∈ d.definitions) (h : err.Justified s.lookup e) :
    (failure s owner err).Justified s d := by
  cases err with
  | pending name span => exact ⟨UnitDecl.references_subset he h.1, h.2⟩
  | addsDimensions text => exact fun hp => h (hp e he)
  | invalidReference _ _ => exact isError_withCause ..
  | unresolved _ _ => rfl
  | kindMismatch _ _ _ _ => rfl
  | numeral _ _ => rfl
  | dimension _ _ => rfl

theorem encodeDefinition_error (h : encodeDefinition s owner kind e = .error f) :
    ∃ err, f = failure s owner err ∧
      (e.encodeDimension s.lookup = .error err ∨ e.encodeValue s.lookup kind = .error err) := by
  unfold encodeDefinition at h
  generalize hx : (do
    let dimension ← e.encodeDimension s.lookup
    let factor ← e.encodeValue s.lookup kind
    return (⟨dimension, factor⟩ : Encoded)) = x at h
  cases x with
  | ok _ => cases h
  | error err =>
    cases h
    refine ⟨err, rfl, ?_⟩
    rcases bind_eq_error_iff.mp hx with hx | ⟨dimension, -, hx⟩
    · exact .inl hx
    · rcases bind_eq_error_iff.mp hx with hx | ⟨factor, -, hx⟩
      · exact .inr hx
      · cases hx

/-! ### All definitions -/

theorem checkAlternative_error {span : Span}
    (h : checkAlternative name main alternative span = .error f) :
    ∃ why, f = .failed (unitError span why) := by
  unfold checkAlternative at h
  dsimp only at h
  split_ifs at h <;> cases h <;> exact ⟨_, rfl⟩

theorem forM_alternatives_stable {es : List Expr} (h : ∀ e ∈ es, s.Grows t e.references) :
    Stable Failure.IsDeferred
      (es.forM fun e => do
        checkAlternative d.name main (← encodeDefinition s d.name kind e) e.span)
      (es.forM fun e => do
        checkAlternative d.name main (← encodeDefinition t d.name kind e) e.span) := by
  induction es with
  | nil => exact .refl _
  | cons e es ih =>
    refine Stable.bind ?_ fun _ _ => ih fun e' he' => h e' (mem_cons_of_mem _ he')
    exact .bind (encodeDefinition_stable (h e (mem_cons_self ..))) fun _ _ => .refl _

/-- **A declaration that does not wait for a unit is encoded in the same way in every later
scope.** -/
theorem encodeUnit_stable (h : s.Grows t d.references) :
    Stable Failure.IsDeferred (encodeUnit s kind d) (encodeUnit t kind d) := by
  have hdef {e : Expr} (he : e ∈ d.definitions) : s.Grows t e.references :=
    h.mono (UnitDecl.references_subset he)
  refine .bind (encodeDefinition_stable (hdef (mem_cons_self ..))) fun main _ => ?_
  refine .bind (forM_alternatives_stable fun e he => hdef (mem_cons_of_mem _ he)) ?_
  exact fun _ _ => .refl _

theorem encodeUnit_congr (h : ∀ name, t.lookup name = s.lookup name ∧ t.cause? name = s.cause? name)
    (kind : NumericKind) (d : UnitDecl) : encodeUnit t kind d = encodeUnit s kind d := by
  have hlookup : t.lookup = s.lookup := funext fun name => (h name).1
  have hcause : t.cause? = s.cause? := funext fun name => (h name).2
  have hfailure : failure t = failure s := by
    funext owner err
    cases err <;> simp [failure, hcause]
  unfold encodeUnit encodeDefinition
  rw [hlookup, hfailure]

theorem encoded_of_encodeUnit (h : encodeUnit s kind d = .ok x) :
    ∀ e ∈ d.definitions, ∃ y, encodeDefinition s d.name kind e = .ok y := by
  obtain ⟨main, hmain, h⟩ := bind_eq_ok_iff.mp h
  obtain ⟨_, halt, -⟩ := bind_eq_ok_iff.mp h
  intro e he
  rcases mem_cons.mp he with rfl | he
  · exact ⟨main, hmain⟩
  · revert halt he
    generalize d.alternatives = es
    intro halt he
    induction es with
    | nil => cases he
    | cons e' es ih =>
      obtain ⟨_, he', halt⟩ := bind_eq_ok_iff.mp halt
      rcases mem_cons.mp he with rfl | he
      · obtain ⟨y, hy, -⟩ := bind_eq_ok_iff.mp he'
        exact ⟨y, hy⟩
      · exact ih halt he

/-- **Why a unit is not encoded**: one of its definitions is at fault, by itself or for the sake of
the others. -/
theorem encodeUnit_error (h : encodeUnit s kind d = .error f) :
    ∃ e ∈ d.definitions,
      (∃ err, f = failure s d.name err ∧
        (e.encodeDimension s.lookup = .error err ∨ e.encodeValue s.lookup kind = .error err)) ∨
      ∃ why, f = .failed (unitError e.span why) := by
  rcases bind_eq_error_iff.mp h with h | ⟨main, -, h⟩
  · exact ⟨_, mem_cons_self .., .inl (encodeDefinition_error h)⟩
  · rcases bind_eq_error_iff.mp h with h | ⟨_, -, h⟩
    · have hsub : d.alternatives ⊆ d.definitions := subset_cons_self _ _
      revert h hsub
      generalize d.alternatives = es
      intro h hsub
      induction es with
      | nil => cases h
      | cons e es ih =>
        rcases bind_eq_error_iff.mp h with h | ⟨_, -, h⟩
        · refine ⟨e, hsub (mem_cons_self ..), ?_⟩
          rcases bind_eq_error_iff.mp h with h | ⟨x, -, h⟩
          · exact .inl (encodeDefinition_error h)
          · exact .inr (checkAlternative_error h)
        · exact ih h fun _ he => hsub (mem_cons_of_mem _ he)
    · split_ifs at h <;> cases h
      exact ⟨_, mem_cons_self .., .inr ⟨_, rfl⟩⟩

/-- **A unit with a meaning refers to units with a meaning only.** -/
theorem resolved_of_encodeUnit (h : encodeUnit s kind d = .ok x) :
    ∀ name ∈ d.references, ∃ u, s.lookup name = .resolved u := by
  intro name hn
  obtain ⟨e, he, hn⟩ := mem_flatMap.mp hn
  obtain ⟨y, hy⟩ := encoded_of_encodeUnit h e he
  exact Expr.resolved_of_encodeDimension (encodeDefinition_eq_ok_iff.mp hy).1 name hn

theorem justified_of_encodeUnit (h : encodeUnit s kind d = .error f) : f.Justified s d := by
  obtain ⟨e, he, ⟨err, rfl, herr⟩ | ⟨why, rfl⟩⟩ := encodeUnit_error h
  · refine justified_failure he ?_
    rcases herr with herr | herr
    · exact (Expr.blames_of_encodeDimension herr).justified
    · exact (Expr.blames_of_encodeValue herr).justified
  · rfl

end Elaborate

end Quantity
