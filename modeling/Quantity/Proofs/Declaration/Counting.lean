import Quantity.Declaration.Parser

/-!
# Counting what is open

Readers count the signs and parentheses that are open: one is added when it is opened, and taken off
when what it stands in front of has been read, but not after a fault. Since a fault ends a declaration
and the next one begins to count anew, the count comes down to a bound on how many may be inside each
other (`Counts`). So a declaration is read just as by readers with a bound (`unitDeclaration_eq_within`
and `scaleDeclaration_eq_within`), and these are what all else is proved about. What goes through every
way to put readers together (`IsCongruence`) goes through the whole grammar.
-/

namespace Quantity.Parser

variable {α β : Type}

/-! ### Readers with a bound -/

/-- A term of a dimension expression with up to `depth` parentheses inside each other. -/
def dimensionTermWithin : (depth : Nat) → Parse Expr
  | 0 => dimensionTermWith (failHere .tooDeep)
  | depth + 1 => dimensionTermWith (parenthesized (dimensionOf (dimensionTermWithin depth)))

/-- A factor of a numeral expression with up to `depth` signs and parentheses inside each other. -/
def numeralFactorWithin : (depth : Nat) → Parse Expr
  | 0 => numeralFactorWith (failHere .tooDeep) (failHere .tooDeep)
  | depth + 1 =>
    let factor := numeralFactorWithin depth
    numeralFactorWith (signed factor) (parenthesized (numeralOf factor))

section Within

variable (depth : Nat)

/-- A dimension expression within a bound. -/
def dimensionWithin : Parse Expr := dimensionOf (dimensionTermWithin depth)

/-- A numeral expression within a bound. -/
def numeralWithin : Parse Expr := numeralOf (numeralFactorWithin depth)

/-- Further definitions within a bound. -/
def alternativesWithin : (fuel : Nat) → Parse (List Expr) := alternativesWith (dimensionWithin depth)

/-- The declaration of a unit within a bound. -/
def unitDeclarationWithin : Parse UnitDecl := unitDeclarationWith (dimensionWithin depth)

/-- The unit and the offset of a scale within a bound. -/
def scaleBodyWithin : Parse (Token × Expr) := scaleBodyWith (numeralWithin depth)

/-- The declaration of a scale within a bound. -/
def scaleDeclarationWithin : Parse ScaleDecl := scaleDeclarationWith (numeralWithin depth)

end Within

/-! ### Ways to put readers together -/

/-- A reader of a part that has nothing nested in it. -/
inductive Primitive : {α : Type} → Parse α → Prop
  | look : Primitive look
  | remaining : Primitive remaining
  | advance : Primitive advance
  | take : Primitive take
  | expect {kind : TokenKind} : kind ≠ .eof → Primitive (expect kind)
  | expectName (what : String) : Primitive (expectName what)
  | failHere {α : Type} (e : ParseError) : Primitive (failHere e : Parse α)
  | unexpected {α : Type} (what : String) : Primitive (unexpected what : Parse α)
  | magnitude : Primitive magnitude
  | unitFactor (t : Token) : Primitive (unitFactor t)
  | kindClause : Primitive kindClause
  | someTags : Primitive someTags
  | formatClause : Primitive formatClause
  | refPointClause : Primitive refPointClause
  | startsWithUnit : Primitive startsWithUnit

section Congruence

variable {m n : Type → Type} [Monad m] [MonadLiftT Parse m] [Monad n] [MonadLiftT Parse n]

/-- **A relation between readers that goes through every way to put them together.** -/
structure IsCongruence (R : ∀ α : Type, m α → n α → Prop) : Prop where
  pure {α : Type} (a : α) : R α (pure a) (pure a)
  lift {α : Type} {x : Parse α} : Primitive x → R α (liftM x) (liftM x)
  bind {α β : Type} {x : m α} {y : n α} {f : α → m β} {g : α → n β} : R α x y →
    (∀ a, R β (f a) (g a)) → R β (x >>= f) (y >>= g)

namespace IsCongruence

variable {R : ∀ α : Type, m α → n α → Prop} (hR : IsCongruence R) {x y : m Expr} {x' y' : n Expr}
  (h : R _ x x')

include hR h

theorem chainFrom (operator? : TokenKind → Option Arith) (fuel : Nat) (left : Expr) :
    R _ (chainFrom x operator? fuel left) (chainFrom x' operator? fuel left) := by
  induction fuel generalizing left with
  | zero => exact hR.pure left
  | succ fuel ih =>
    refine hR.bind (hR.lift .look) fun t => ?_
    cases operator? t.kind with
    | none => exact hR.pure left
    | some op => exact hR.bind (hR.lift .advance) fun _ => hR.bind h fun right => ih _

theorem chain (operator? : TokenKind → Option Arith) :
    R _ (chain x operator?) (chain x' operator?) :=
  hR.bind h fun left => hR.bind (hR.lift .remaining) fun fuel => hR.chainFrom h operator? fuel left

theorem dimensionOf : R _ (dimensionOf x) (dimensionOf x') := by
  refine hR.bind (hR.chain h _) fun e => hR.bind (hR.lift .look) fun t => ?_
  split
  · exact hR.lift (.failHere _)
  · exact hR.pure e

theorem numeralOf : R _ (numeralOf x) (numeralOf x') := hR.chain (hR.chain h _) _

theorem parenthesized : R _ (parenthesized x) (parenthesized x') :=
  hR.bind (hR.lift .advance) fun _ => hR.bind h fun _ =>
    hR.bind (hR.lift (.expect nofun)) fun _ => hR.pure _

theorem signed : R _ (signed x) (signed x') :=
  hR.bind (hR.lift .take) fun _ => hR.bind h fun _ => hR.pure _

theorem dimensionTermWith : R _ (dimensionTermWith x) (dimensionTermWith x') := by
  refine hR.bind (hR.lift .look) fun t => ?_
  split
  · exact hR.lift .magnitude
  · exact hR.bind (hR.lift .advance) fun _ => hR.pure _
  · exact hR.bind (hR.lift .advance) fun _ => hR.pure _
  · exact hR.bind (hR.lift .advance) fun _ => hR.pure _
  · exact h
  · exact hR.lift (.failHere _)
  · exact hR.lift (.unexpected _)

theorem numeralFactorWith (hgroup : R _ y y') :
    R _ (numeralFactorWith x y) (numeralFactorWith x' y') := by
  refine hR.bind (hR.lift .look) fun t => ?_
  split
  · exact h
  · exact h
  · exact hR.bind (hR.lift .advance) fun _ => hR.pure _
  · exact hR.bind (hR.lift .advance) fun _ => hR.pure _
  · refine hR.bind (hR.lift .advance) fun _ => ?_
    split
    · exact hR.pure _
    · exact hR.lift (.unitFactor t)
  · exact hgroup
  · exact hR.lift (.unexpected _)

theorem alternativesWith (fuel : Nat) :
    R _ (alternativesWith x fuel) (alternativesWith x' fuel) := by
  induction fuel with
  | zero => exact hR.pure []
  | succ fuel ih =>
    refine hR.bind (hR.lift .look) fun t => ?_
    split
    · exact hR.bind (hR.lift .advance) fun _ => hR.bind h fun e => hR.bind ih fun more => hR.pure _
    · exact hR.pure []

theorem unitDeclarationWith : R _ (unitDeclarationWith x) (unitDeclarationWith x') := by
  refine hR.bind (hR.lift .take) fun start => hR.bind (hR.lift .kindClause) fun kind => ?_
  refine hR.bind (hR.lift (.expectName _)) fun name => hR.bind (hR.lift .someTags) fun tags => ?_
  refine hR.bind (hR.lift .formatClause) fun format => ?_
  refine hR.bind (hR.lift (.expect nofun)) fun _ => hR.bind h fun definition => ?_
  refine hR.bind (hR.lift .remaining) fun fuel => ?_
  refine hR.bind (hR.alternativesWith h fuel) fun more => ?_
  exact hR.bind (hR.lift (.expect nofun)) fun stop => hR.pure _

theorem scaleBodyWith : R _ (scaleBodyWith x) (scaleBodyWith x') := by
  refine hR.bind (hR.lift .startsWithUnit) fun unitFirst => ?_
  split
  · exact hR.bind (hR.lift .take) fun unit => hR.bind h fun offset => hR.pure _
  · refine hR.bind h fun offset => hR.bind (hR.lift .look) fun t => ?_
    split
    · exact hR.bind (hR.lift .advance) fun _ =>
        hR.bind (hR.lift (.expectName _)) fun unit => hR.pure _
    · exact hR.lift (.unexpected _)

theorem scaleDeclarationWith : R _ (scaleDeclarationWith x) (scaleDeclarationWith x') := by
  refine hR.bind (hR.lift .take) fun start => hR.bind (hR.lift (.expectName _)) fun name => ?_
  refine hR.bind (hR.lift .formatClause) fun format => ?_
  refine hR.bind (hR.lift .refPointClause) fun refPoint => ?_
  refine hR.bind (hR.lift (.expect nofun)) fun _ => hR.bind (hR.scaleBodyWith h) fun body => ?_
  exact hR.bind (hR.lift (.expect nofun)) fun stop => hR.pure _

end IsCongruence

end Congruence

/-! ### From the count to the bound -/

/-- **A reader that counts does what one with a bound does**, when `depth` more may be opened. Unless
there is a fault, it leaves the count as it was. -/
def Counts (depth : Nat) (x : Counted α) (y : Parse α) : Prop :=
  ∀ s count, count + depth = maxNesting →
    ∃ count', x (s, count) = ((y s).1, (y s).2, count') ∧ ((y s).1.isSome = true → count' = count)

section Counts

variable {depth : Nat} {x y : Counted Expr} {x' y' : Parse Expr}

theorem counts_lift (x : Parse α) : Counts depth (liftM x) x :=
  fun _ count _ => ⟨count, rfl, fun _ => rfl⟩

theorem counts_pure (a : α) : Counts depth (pure a) (pure a) := counts_lift (pure a)

theorem Counts.bind {x : Counted α} {x' : Parse α} {f : α → Counted β} {f' : α → Parse β}
    (hx : Counts depth x x') (hf : ∀ a, Counts depth (f a) (f' a)) :
    Counts depth (x >>= f) (x' >>= f') := by
  intro s count hcount
  obtain ⟨count', hread, hsame⟩ := hx s count hcount
  simp only [Bind.bind, hread]
  revert hsame
  rcases x' s with ⟨_ | a, t⟩ <;> intro hsame
  · exact ⟨count', rfl, nofun⟩
  · rw [hsame rfl]
    exact hf a t count hcount

theorem isCongruence_counts (depth : Nat) : IsCongruence fun α => @Counts α depth where
  pure := counts_pure
  lift {_ x} _ := counts_lift x
  bind := Counts.bind

/-- One more is open while the inner part is read. -/
theorem Counts.nested (h : Counts depth x x') : Counts (depth + 1) (.nested x) x' := by
  intro s count hcount
  obtain ⟨count', hread, hsame⟩ := h s (count + 1) (by omega)
  have hcheck : Counted.check (s, count + 1) = (some (), s, count + 1) := by
    rw [Counted.check, if_neg (by dsimp only; omega)]
    rfl
  simp only [Counted.nested, Bind.bind, Counted.enter, hcheck, hread]
  revert hsame
  rcases x' s with ⟨_ | e, t⟩ <;> intro hsame
  · exact ⟨count', rfl, nofun⟩
  · rw [hsame rfl]
    exact ⟨count, rfl, fun _ => rfl⟩

/-- Nothing can be opened any more. -/
theorem counts_tooDeep (x : Counted Expr) : Counts 0 (.nested x) (failHere .tooDeep) := by
  intro s count hcount
  have hcheck : Counted.check (s, count + 1) =
      (none, ((failHere .tooDeep : Parse Unit) s).2, count + 1) := by
    rw [Counted.check, if_pos (by dsimp only; omega)]
    rfl
  simp only [Counted.nested, Bind.bind, Counted.enter, hcheck]
  exact ⟨count + 1, rfl, nofun⟩

theorem counts_dimensionTerm {fuel : Nat} (hfuel : depth ≤ fuel) :
    Counts depth (dimensionTerm fuel) (dimensionTermWithin depth) := by
  induction depth generalizing fuel with
  | zero => cases fuel <;> exact (isCongruence_counts 0).dimensionTermWith (counts_tooDeep _)
  | succ depth ih =>
    cases fuel with
    | zero => omega
    | succ fuel =>
      have hgroup := (isCongruence_counts depth).parenthesized
        ((isCongruence_counts depth).dimensionOf (@ih fuel (by omega)))
      exact (isCongruence_counts _).dimensionTermWith hgroup.nested

theorem counts_numeralFactor {fuel : Nat} (hfuel : depth ≤ fuel) :
    Counts depth (numeralFactor fuel) (numeralFactorWithin depth) := by
  induction depth generalizing fuel with
  | zero =>
    cases fuel <;>
      exact (isCongruence_counts 0).numeralFactorWith (counts_tooDeep _) (counts_tooDeep _)
  | succ depth ih =>
    cases fuel with
    | zero => omega
    | succ fuel =>
      have hR := isCongruence_counts depth
      have hfactor := @ih fuel (by omega)
      exact (isCongruence_counts _).numeralFactorWith (hR.signed hfactor).nested
        (hR.parenthesized (hR.numeralOf hfactor)).nested

/-- **Dimension expressions are read within the bound that the count leaves.** -/
theorem counts_dimension (h : depth ≤ maxNesting) :
    Counts depth dimension (dimensionWithin depth) :=
  (isCongruence_counts depth).dimensionOf (counts_dimensionTerm h)

/-- **Numeral expressions are read within the bound that the count leaves.** -/
theorem counts_numeral (h : depth ≤ maxNesting) : Counts depth numeral (numeralWithin depth) :=
  (isCongruence_counts depth).numeralOf (counts_numeralFactor h)

end Counts

theorem Counts.run_eq {depth count : Nat} {x : Counted α} {y : Parse α} (h : Counts depth x y)
    (hcount : count + depth = maxNesting) : x.run count = y := by
  funext s
  obtain ⟨count', hread, -⟩ := h s count hcount
  simp only [Counted.run, hread]

theorem Counts.eq_some_iff {depth count count' : Nat} {s s' : State} {x : Counted α} {y : Parse α}
    {a : α} (h : Counts depth x y) (hcount : count + depth = maxNesting) :
    x (s, count) = (some a, s', count') ↔ y s = (some a, s') ∧ count' = count := by
  obtain ⟨_, hread, hsame⟩ := h s count hcount
  rw [hread]
  constructor
  · intro heq
    obtain ⟨hvalue, hstate⟩ := Prod.mk.inj heq
    obtain ⟨rfl, rfl⟩ := Prod.mk.inj hstate
    exact ⟨Prod.ext hvalue rfl, hsame (hvalue ▸ rfl)⟩
  · rintro ⟨heq, rfl⟩
    rw [heq] at hsame ⊢
    rw [hsame rfl]

theorem unitDeclaration_eq_within : unitDeclaration = unitDeclarationWithin maxNesting := by
  have hread := (isCongruence_counts _).unitDeclarationWith (counts_dimension (Nat.le_refl _))
  exact hread.run_eq (Nat.zero_add _)

theorem scaleDeclaration_eq_within : scaleDeclaration = scaleDeclarationWithin maxNesting := by
  have hread := (isCongruence_counts _).scaleDeclarationWith (counts_numeral (Nat.le_refl _))
  exact hread.run_eq (Nat.zero_add _)

end Quantity.Parser
