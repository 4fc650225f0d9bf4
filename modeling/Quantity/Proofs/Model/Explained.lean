import Quantity.Proofs.Model.InRange

/-!
# Where faults are

What is reported about a unit or a scale is an error about the meaning of its declaration, and it
is at a place of this declaration: at the whole of it, at the name of a unit, or at a part of one
of its expressions (`Diagnostic.IsAbout`). There is one lemma for each way to fail.
-/

namespace Quantity

open List

/-! ### Expressions -/

namespace Expr

/-- The places of all parts of an expression. -/
def places : Expr → List Span
  | number _ s | literal _ s | magnitude _ s | reference _ s => [s]
  | signed _ e | paren e => e.places
  | arith _ l r => l.span.upTo r.span :: (l.places ++ r.places)

theorem span_mem_places (e : Expr) : e.span ∈ e.places := by
  induction e with
  | number | literal | magnitude | reference => exact mem_singleton_self _
  | signed _ e ih => exact ih
  | paren e ih => exact ih
  | arith => exact mem_cons_self ..

/-- The fault is at a part of the expression, if it has a place. -/
def Faults (e : Expr) (err : EncodeError) : Prop := ∀ s, err.span = some s → s ∈ e.places

theorem faults_of_span {e : Expr} (h : err.span = some e.span) : e.Faults err := by
  intro s hs
  rw [h] at hs
  cases hs
  exact e.span_mem_places

theorem faults_of_resolve {l : Lookup} {span : Span} (h : l.resolve name span = .error err) :
    (reference name span).Faults err := by
  refine faults_of_span ?_
  cases l <;> cases h <;> rfl

theorem Blames.faults {lookup : String → Lookup} {e : Expr} (h : e.Blames lookup sums err) :
    e.Faults err := by
  induction h with
  | name h => exact faults_of_resolve h
  | kind | numeral | dimension => exact faults_of_span rfl
  | sum => exact nofun
  | signed _ ih | paren _ ih => exact ih
  | left _ ih => exact fun s hs => mem_cons_of_mem _ (mem_append_left _ (ih s hs))
  | right _ ih => exact fun s hs => mem_cons_of_mem _ (mem_append_right _ (ih s hs))

end Expr

/-! ### Declarations -/

/-- The places of a declaration and of the parts of its definitions. -/
def UnitDecl.places (d : UnitDecl) : List Span := d.span :: d.definitions.flatMap (·.places)

/-- The places of a declaration, of the name of its unit, and of the parts of its offset. -/
def ScaleDecl.places (d : ScaleDecl) : List Span := d.span :: d.unitSpan :: d.offset.places

theorem UnitDecl.mem_places {d : UnitDecl} (he : e ∈ d.definitions) (hs : s ∈ e.places) :
    s ∈ d.places :=
  mem_cons_of_mem _ (mem_flatMap.mpr ⟨e, he, hs⟩)

/-- **An error about the meaning of a declaration**, at one of its places. -/
structure Diagnostic.IsAbout (source : Option String) (places : List Span) (d : Diagnostic) :
    Prop where
  severity : d.severity = .error
  stage : d.stage = .semantic
  source : d.source = source
  span : ∃ s ∈ places, d.span = some s

namespace Elaborate

variable {scope : Scope} {kind : NumericKind} {places : List Span} {span : Span}

theorem isAbout_unitError (h : span ∈ places) (e : UnitError) :
    (unitError span e).IsAbout none places := ⟨rfl, rfl, rfl, span, h, rfl⟩

theorem isAbout_scaleError (h : span ∈ places) (e : ScaleError) :
    (scaleError span e).IsAbout none places := ⟨rfl, rfl, rfl, span, h, rfl⟩

theorem isAbout_withCause (h : d.IsAbout none places) (cause : Option Diagnostic) :
    (withCause d cause).IsAbout none places := by
  cases cause with
  | none => exact h
  | some c => exact ⟨h.severity, h.stage, h.source, h.span⟩

/-! ### Units -/

/-- The failure is about the declaration, or it waits for a unit that is named there. -/
def Failure.IsAbout (places : List Span) : Failure → Prop
  | .deferred _ span => span ∈ places
  | .failed why => why.IsAbout none places
  | .internal _ => True

theorem isAbout_failure {e : Expr} (h : e.Faults err) (he : e.places ⊆ places) :
    (failure scope owner err).IsAbout places := by
  cases err with
  | pending name span => exact he (h span rfl)
  | invalidReference name span =>
    exact isAbout_withCause (isAbout_unitError (he (h span rfl)) _) _
  | unresolved name span => exact isAbout_unitError (he (h span rfl)) _
  | kindMismatch name span _ _ => exact isAbout_unitError (he (h span rfl)) _
  | numeral _ span => exact isAbout_unitError (he (h span rfl)) _
  | dimension _ span => exact isAbout_unitError (he (h span rfl)) _
  | addsDimensions _ => trivial

theorem isAbout_of_encodeUnit (h : encodeUnit scope kind d = .error f) : f.IsAbout d.places := by
  obtain ⟨e, he, ⟨err, rfl, herr⟩ | ⟨why, rfl⟩⟩ := encodeUnit_error h
  · refine isAbout_failure ?_ fun s => UnitDecl.mem_places he
    rcases herr with herr | herr
    · exact (Expr.blames_of_encodeDimension herr).faults
    · exact (Expr.blames_of_encodeValue herr).faults
  · exact isAbout_unitError (UnitDecl.mem_places he e.span_mem_places) why

/-! ### Scales -/

theorem isAbout_of_scaleNameError?
    (h : scaleNameError? options lateUnits lateScales scope names d = some why) :
    why.IsAbout none d.places := by
  have herror {e : ScaleError} (h : some (scaleError d.span e) = some why) :
      why.IsAbout none d.places := by
    cases h
    exact isAbout_scaleError (mem_cons_self ..) e
  unfold scaleNameError? at h
  split at h
  · exact herror h
  · split at h
    · cases h
    · split_ifs at h
      · exact herror h
      · exact herror h

theorem isAbout_of_encodeScale (h : encodeScale scope d bare = .error why) :
    why.IsAbout none d.places := by
  have hunit : d.unitSpan ∈ d.places := mem_cons_of_mem _ (mem_cons_self ..)
  unfold encodeScale at h
  split at h
  · cases h
    exact isAbout_scaleError hunit _
  · split at h
    · split at h
      · cases h
      · rename_i e he
        cases h
        refine isAbout_withCause (isAbout_scaleError ?_ _) _
        cases hspan : e.span with
        | none => exact mem_cons_self ..
        | some span =>
          have := (Expr.blames_of_encodeValue he).faults span hspan
          exact mem_cons_of_mem _ (mem_cons_of_mem _ this)
    · cases h
      exact isAbout_withCause (isAbout_scaleError hunit _) (some _)
    · cases h
      exact isAbout_scaleError hunit _

end Elaborate

end Quantity
