import Mathlib.Data.List.MinMax
import Quantity.Proofs.Declaration.Grammatical
import Quantity.Proofs.Declaration.Recovery

/-!
# How deep expressions go

A reader that may open fewer signs and parentheses does what one does that may open more, or it gives
up at a token which the other one gets past (`Falters`). This goes through every way to put readers
together (`IsCongruence`), so it holds of the readers of declarations at any two bounds. At a bound
that is high enough a declaration of the grammar is taken. So at the bound of the language, where the
count begins anew with each declaration, it is taken as well, or it is given up for its nesting,
whatever was read before: `nesting_bound_exact`.
-/

namespace Quantity

open List Grammar

namespace Parser

variable {α β : Type} {s s' : State}

/-! ### Readers that give up earlier -/

/-- **Reading with `x` falters where `y` goes on**: both do the same, or `x` gives up for the nesting
at a token that `y` takes. -/
structure Falter (x y : Parse α) (s : State) : Prop where
  takes : ∀ a s₂, y s = (some a, s₂) → ∃ ts, Takes s ts s₂
  cases : x s = y s ∨ ∃ ts s', Takes s ts s' ∧ x s = failHere .tooDeep s' ∧
    ∀ a s₂, y s = (some a, s₂) → ∃ vs, vs ≠ [] ∧ Takes s' vs s₂

def Falters (x y : Parse α) : Prop := ∀ s, s.EndsIn .eof → Falter x y s

theorem Accepts.takes (h : Accepts y R s) (hy : y s = (some a, s₂)) : ∃ ts, Takes s ts s₂ := by
  obtain ⟨ts, hts, -⟩ := h.some_iff.mp hy
  exact ⟨ts, hts⟩

theorem Accepts.falter (h : Accepts y R s) : Falter y y s := ⟨fun _ _ => h.takes, .inl rfl⟩

theorem Recognizes.falters (h : Recognizes y R) : Falters y y := fun s hs => (h s hs).falter

theorem falters_pure (a : α) : Falters (pure a) (pure a) := fun s _ => (accepts_pure a s).falter

theorem falters_take : Falters take take := by
  refine fun s _ => ⟨fun a s₂ h => ?_, .inl rfl⟩
  obtain ⟨-, rfl⟩ := Prod.mk.inj h
  by_cases hrest : s.rest = []
  · exact ⟨[], by simpa [State.advance, hrest] using Takes.nil s⟩
  · exact ⟨_, .single hrest⟩

/-- A look at what is in view takes nothing. -/
theorem falters_of_eq {x : Parse α} (h : ∀ s, (x s).2 = s) : Falters x x :=
  fun s _ => ⟨fun _ s₂ hx => ⟨[], by rw [← h s, hx]; exact .nil s₂⟩, .inl rfl⟩

theorem Falter.bind {x y : Parse α} {f g : α → Parse β} (hx : Falter x y s)
    (hf : ∀ a ts s', Takes s ts s' → Falter (f a) (g a) s') : Falter (x >>= f) (y >>= g) s := by
  -- what a whole run takes is what its two parts take
  have hsplit {b : β} {s₂ : State} (h : (y >>= g) s = (some b, s₂)) :
      ∃ a s₁ ts us, y s = (some a, s₁) ∧ Takes s ts s₁ ∧ Takes s₁ us s₂ := by
    rcases hy : y s with ⟨_ | a, s₁⟩
    · rw [bind_of_none hy] at h
      cases h
    · rw [bind_of_some hy] at h
      obtain ⟨ts, hts⟩ := hx.takes a s₁ hy
      obtain ⟨us, hus⟩ := (hf a ts s₁ hts).takes b s₂ h
      exact ⟨a, s₁, ts, us, rfl, hts, hus⟩
  refine ⟨fun b s₂ h => ?_, ?_⟩
  · obtain ⟨a, s₁, ts, us, -, hts, hus⟩ := hsplit h
    exact ⟨ts ++ us, hts.append hus⟩
  rcases hx.cases with heq | ⟨ts, s', hts, hfail, hpast⟩
  · rcases hy : y s with ⟨_ | a, s₁⟩
    · left
      rw [bind_of_none hy, bind_of_none (heq.trans hy)]
    · obtain ⟨ts, hts⟩ := hx.takes a s₁ hy
      rw [bind_of_some hy, bind_of_some (heq.trans hy)]
      refine (hf a ts s₁ hts).cases.imp_right ?_
      rintro ⟨us, s', hus, hfail, hpast⟩
      exact ⟨ts ++ us, s', hts.append hus, hfail, hpast⟩
  · refine .inr ⟨ts, s', hts, ?_, fun b s₂ h => ?_⟩
    · rw [bind_of_none hfail]
      rfl
    · obtain ⟨a, s₁, _, us, hy, -, hus⟩ := hsplit h
      obtain ⟨vs, hne, hvs⟩ := hpast a s₁ hy
      exact ⟨vs ++ us, by simp [hne], hvs.append hus⟩

theorem Falters.bind {x y : Parse α} {f g : α → Parse β} (hx : Falters x y)
    (hf : ∀ a, Falters (f a) (g a)) : Falters (x >>= f) (y >>= g) :=
  fun s hs => (hx s hs).bind fun a _ s' hts => hf a s' (hs.later hts.later)

theorem falters_of_primitive {x : Parse α} (h : Primitive x) : Falters x x := by
  have hfail (span : Span) (e : ParseError) : Falters (fail span e : Parse Expr) (fail span e) :=
    fun s _ => ⟨nofun, .inl rfl⟩
  cases h with
  | look | remaining | startsWithUnit => exact falters_of_eq fun _ => rfl
  | take => exact falters_take
  | advance => exact falters_take.bind fun _ => falters_pure ()
  | expect hkind => exact (recognizes_expect _ hkind).falters
  | expectName what => exact (recognizes_expectName what).falters
  | failHere e => exact fun s _ => (accepts_failHere e s).falter
  | unexpected what => exact fun s _ => (accepts_unexpected what s).falter
  | kindClause => exact recognizes_kindClause.falters
  | someTags => exact recognizes_someTags.falters
  | formatClause => exact recognizes_formatClause.falters
  | refPointClause => exact recognizes_refPointClause.falters
  | unitFactor t =>
    refine (recognizes_expect .dot nofun).falters.bind fun _ => ?_
    refine (recognizes_expectName _).falters.bind fun property => ?_
    split_ifs
    · exact falters_pure _
    · exact hfail _ _
  | magnitude =>
    have hclose (start : Token) (m : Option Magnitude) : Falters (expect .greater >>= fun stop =>
        pure (Expr.magnitude m (start.span.upTo stop.span))) _ :=
      (recognizes_expect .greater nofun).falters.bind fun stop => falters_pure _
    refine falters_take.bind fun start => (falters_of_eq (x := look) fun _ => rfl).bind fun t => ?_
    split_ifs
    · exact (falters_pure none).bind (hclose start)
    · refine (recognizes_expectName _).falters.bind fun name => ?_
      cases Magnitude.ofName? name.value with
      | none => exact hfail _ _
      | some m => exact (falters_pure (some m)).bind (hclose start)

theorem ne_nil_of_chain (h : Grammar.Chain sign operand ts e) (ho : ∀ e', ¬ operand [] e') :
    ts ≠ [] := by
  induction h with
  | single h =>
    rintro rfl
    exact ho _ h
  | join => simp

theorem isCongruence_falters : IsCongruence fun α => @Falters α where
  pure := falters_pure
  lift := falters_of_primitive
  bind := Falters.bind

/-! ### Expressions and declarations -/

/-- Where nothing may be opened any more, with a part `y` behind what would be opened. -/
theorem falters_failHere {x : Parse α} {y : Parse β} {g : α → β → Parse γ} (hx : Falters x x)
    (hy : Recognizes y R) (hnil : ∀ b k, ¬ R [] b k) (hg : ∀ a b, Falters (g a b) (g a b)) :
    Falters (failHere .tooDeep) (x >>= fun a => y >>= g a) := by
  intro s hs
  have hread := (hx.bind fun a => hy.falters.bind (hg a)) s hs
  refine ⟨hread.takes, .inr ⟨[], s, .nil s, rfl, fun c s₂ h => ?_⟩⟩
  rcases hxs : x s with ⟨_ | a, s₁⟩
  · rw [bind_of_none hxs] at h
    cases h
  rw [bind_of_some hxs] at h
  obtain ⟨ts, hts⟩ := (hx s hs).takes a s₁ hxs
  have hs₁ := hs.later hts.later
  rcases hys : y s₁ with ⟨_ | b, s₂⟩
  · rw [bind_of_none hys] at h
    cases h
  rw [bind_of_some hys] at h
  obtain ⟨us, hus, hR⟩ := (hy s₁ hs₁).some_iff.mp hys
  obtain ⟨vs, hvs⟩ := (hg a b _ (hs₁.later hus.later)).takes c _ h
  refine ⟨ts ++ (us ++ vs), ?_, hts.append (hus.append hvs)⟩
  rintro hempty
  simp only [append_eq_nil_iff] at hempty
  exact hnil _ _ (hempty.2.1 ▸ hR)

theorem falters_dimensionTerm (h : d ≤ D) :
    Falters (dimensionTermWithin d) (dimensionTermWithin D) := by
  have hR := isCongruence_falters
  induction d generalizing D with
  | zero =>
    cases D with
    | zero => exact hR.dimensionTermWith (hR.lift (.failHere _))
    | succ D =>
      refine hR.dimensionTermWith (falters_failHere ?_ (recognizes_dimension D) ?_ fun _ _ => ?_)
      · exact hR.lift .advance
      · exact fun _ _ h => ne_nil_of_chain h.1.1 (fun _ => not_dimensionTerm_nil) rfl
      · exact hR.bind (hR.lift (.expect nofun)) fun _ => hR.pure _
  | succ d ih =>
    obtain ⟨D, rfl⟩ := Nat.exists_eq_add_of_lt h
    exact hR.dimensionTermWith (hR.parenthesized (hR.dimensionOf (ih (by omega))))

theorem falters_numeralFactor (h : d ≤ D) :
    Falters (numeralFactorWithin d) (numeralFactorWithin D) := by
  have hR := isCongruence_falters
  induction d generalizing D with
  | zero =>
    cases D with
    | zero => exact hR.numeralFactorWith (hR.lift (.failHere _)) (hR.lift (.failHere _))
    | succ D =>
      refine hR.numeralFactorWith (falters_failHere ?_ (recognizes_numeralFactor D) ?_ fun _ _ => ?_)
        (falters_failHere ?_ (recognizes_numeral D) ?_ fun _ _ => ?_)
      · exact hR.lift .take
      · exact fun _ _ h => not_factor_nil h.1
      · exact hR.pure _
      · exact hR.lift .advance
      · refine fun _ _ h => ne_nil_of_chain h.1.1 (fun _ h => ?_) rfl
        exact ne_nil_of_chain h (fun _ => not_factor_nil) rfl
      · exact hR.bind (hR.lift (.expect nofun)) fun _ => hR.pure _
  | succ d ih =>
    obtain ⟨D, rfl⟩ := Nat.exists_eq_add_of_lt h
    have hfactor := ih (D := d + D) (by omega)
    exact hR.numeralFactorWith (hR.signed hfactor) (hR.parenthesized (hR.numeralOf hfactor))

theorem falters_unitDeclaration (h : d ≤ D) :
    Falters (unitDeclarationWithin d) (unitDeclarationWithin D) :=
  isCongruence_falters.unitDeclarationWith
    (isCongruence_falters.dimensionOf (falters_dimensionTerm h))

theorem falters_scaleDeclaration (h : d ≤ D) :
    Falters (scaleDeclarationWithin d) (scaleDeclarationWithin D) :=
  isCongruence_falters.scaleDeclarationWith
    (isCongruence_falters.numeralOf (falters_numeralFactor h))

theorem falters_declaration (h : d ≤ D) : Falters (declarationWithin d) (declarationWithin D) := by
  intro s hs
  have hunit := ((falters_unitDeclaration h).bind fun u =>
    falters_pure ({ units := [u] } : Declarations)) s hs
  have hscale := ((falters_scaleDeclaration h).bind fun d =>
    falters_pure ({ scales := [d] } : Declarations)) s hs
  unfold declarationWithin
  constructor
  · split_ifs
    · exact hunit.takes
    · exact hscale.takes
  · split_ifs
    · exact hunit.cases
    · exact hscale.cases

/-- **A declaration of the grammar is taken, or given up for its nesting** at one of its tokens. -/
theorem declaration_cases (h : Declaration us new) (hs : s.EndsIn .eof) (hus : Takes s us s') :
    (new.NestsWithin maxNesting ∧ declarationWithin maxNesting s = (some new, s')) ∨
      (¬ new.NestsWithin maxNesting ∧ ∃ ts t, Takes s ts t ∧ t.current ∈ us ∧
        declarationWithin maxNesting s = failHere .tooDeep t) := by
  have hstarts := starts_of_declaration h hus
  have hread := @(accepts_declarationWithin maxNesting hs hstarts).some_iff
  -- a bound that is high enough
  let depths := maxNesting :: new.expressions.map Expr.nesting
  let D := depths.foldr max 0
  have hle {n : Nat} (hn : n ∈ depths) : n ≤ D := List.le_max_of_le' 0 hn (Nat.le_refl n)
  have hdepth : new.NestsWithin D := fun e he => hle (mem_cons_of_mem _ (mem_map_of_mem he))
  have hlong := (accepts_declarationWithin D hs hstarts).some_iff.mpr ⟨us, hus, h, hdepth⟩
  rcases (falters_declaration (hle mem_cons_self) s hs).cases with
    heq | ⟨ts, t, hts, hfail, hpast⟩
  · obtain ⟨-, -, -, hshallow⟩ := hread.mp (heq.trans hlong)
    exact .inl ⟨hshallow, heq.trans hlong⟩
  · refine .inr ⟨fun hshallow => ?_, ts, t, hts, ?_, hfail⟩
    · have hsome := hread.mpr ⟨us, hus, h, hshallow⟩
      rw [hfail] at hsome
      cases hsome
    · obtain ⟨_ | ⟨v, vs⟩, hne, hvs⟩ := hpast new s' hlong
      · contradiction
      · have htokens := (hts.append hvs).tokens
        rw [hus.tokens] at htokens
        rw [append_cancel_right htokens, ← hvs.eq_current]
        simp

/-- **What is open counts, and is counted only as long as it is.** -/
theorem counted_eq_some_iff {x : Counted Expr} {within : Nat → Parse Expr}
    {phrase : List Token → Expr → Prop} {ends : TokenKind → Prop} {count count' : Nat}
    (hcounts : ∀ depth ≤ maxNesting, Counts depth x (within depth))
    (hwithin : ∀ depth, Recognizes (within depth) fun ts e k =>
      (phrase ts e ∧ e.nesting ≤ depth) ∧ ends k)
    (hs : s.EndsIn .eof) (hcount : count ≤ maxNesting) :
    x (s, count) = (some e, s', count') ↔ (∃ ts, Takes s ts s' ∧ phrase ts e ∧ ends s'.kind) ∧
      count + e.nesting ≤ maxNesting ∧ count' = count := by
  rw [(hcounts (maxNesting - count) (by omega)).eq_some_iff (by omega), (hwithin _ s hs).some_iff]
  constructor
  · rintro ⟨⟨ts, hts, ⟨hphrase, hnesting⟩, hends⟩, hsame⟩
    exact ⟨⟨ts, hts, hphrase, hends⟩, by omega, hsame⟩
  · rintro ⟨⟨ts, hts, hphrase, hends⟩, hnesting, hsame⟩
    exact ⟨⟨ts, hts, ⟨hphrase, by omega⟩, hends⟩, hsame⟩

/-- The faults that were reported. -/
def State.faults (s : State) : List Diagnostic := s.diagnostics.items.filter (·.stage = .parse)

theorem faults_advance (s : State) : s.advance.faults = s.faults := by
  unfold State.advance State.faults reportLexError
  split
  · rfl
  · split <;> simp [Diagnostics.push, Diagnostic.errorAt]

theorem Takes.faults (h : Takes s ts s') : s'.faults = s.faults := by
  induction h with
  | nil => rfl
  | cons _ _ ih => rw [ih, faults_advance]

theorem faults_synchronize (s : State) : (synchronize s).faults = s.faults := by
  fun_induction synchronize s with
  | case1 s => exact faults_advance s
  | case2 | case3 => rfl
  | case4 s _ _ _ ih => rw [ih, faults_advance]

end Parser

namespace Declarations

open Quantity.Parser

theorem Reached.source_eq (h : Reached source text s found) : s.diagnostics.source = source := by
  induction h with
  | start => exact source_reportLexError _ _
  | step _ _ ih => exact (later_step _ _).source.trans ih

/-- **The bound on nesting is exact.** With some signs and parentheses open, those expressions are read
that stay within the bound together with them, and then as many are open as before. No expression that
is read goes too deep. A declaration of the grammar, wherever reading has come to it, is taken without
a fault if none of its expressions goes too deep; otherwise it is given up, and its nesting is the one
fault that is reported. -/
theorem nesting_bound_exact (source : Option String) (text : String) :
    (∀ s s' e count count', s.EndsIn .eof → count ≤ maxNesting →
      (dimension (s, count) = (some e, s', count') ↔
        (∃ ts, Takes s ts s' ∧ DimensionPhrase ts e ∧ EndsDimension s'.kind) ∧
          count + e.nesting ≤ maxNesting ∧ count' = count) ∧
      (numeral (s, count) = (some e, s', count') ↔
        (∃ ts, Takes s ts s' ∧ NumeralPhrase ts e ∧ EndsNumeral s'.kind) ∧
          count + e.nesting ≤ maxNesting ∧ count' = count)) ∧
    (read source text).1.NestsWithin maxNesting ∧
      ∀ s found us s' new, Reached source text s found → Takes s us s' → Declaration us new →
        (step s found).1.diagnostics.items <+: (read source text).2.items ∧
        ((new.NestsWithin maxNesting ∧ step s found = (s', found.append new) ∧
            s'.faults = s.faults) ∨
          (¬ new.NestsWithin maxNesting ∧ (step s found).2 = found ∧
            ∃ t ∈ us, (step s found).1.faults = s.faults ++
              [{ Diagnostic.errorAt .parse t.span ParseError.tooDeep.message with source }])) := by
  refine ⟨fun s s' e count count' hs hcount => ⟨?_, ?_⟩, fun e he => ?_,
    fun s found us s' new hreached hus hnew => ?_⟩
  · exact counted_eq_some_iff (fun depth => counts_dimension) recognizes_dimension hs hcount
  · exact counted_eq_some_iff (fun depth => counts_numeral) recognizes_numeral hs hcount
  · obtain ⟨hunits, hscales⟩ := read_grammatical source text
    rcases mem_append.mp he with he | he
    · obtain ⟨u, hu, he⟩ := mem_flatMap.mp he
      exact (hunits u hu).1 e he
    · obtain ⟨d, hd, rfl⟩ := mem_map.mp he
      exact (hscales d hd).1
  · have hstarts := starts_of_declaration hnew hus
    refine ⟨(Reached.step hreached (ne_eof_of_starts hstarts)).isPrefix, ?_⟩
    rw [step_eq hstarts]
    rcases declaration_cases hnew hreached.endsIn hus with
      ⟨hshallow, hread⟩ | ⟨hdeep, ts, t, hts, ht, hread⟩
    · exact .inl ⟨hshallow, by rw [hread], hus.faults⟩
    · refine .inr ⟨hdeep, by rw [hread]; rfl, t.current, ht, ?_⟩
      have hsource : t.diagnostics.source = source :=
        hts.later.source.trans hreached.source_eq
      have hfaults : (failHere (α := Declarations) .tooDeep t).2.faults = t.faults ++
          [{ Diagnostic.errorAt .parse t.current.span ParseError.tooDeep.message with source }] := by
        simp [failHere, fail, State.faults, Diagnostics.push, Diagnostic.errorAt, hsource]
      rw [hread]
      show (synchronize (failHere (α := Declarations) .tooDeep t).2).faults = _
      rw [faults_synchronize, hfaults, hts.faults]

/-- A unit whose definition stands in one pair of parentheses too many. -/
def deepFoot : List Char :=
  "unit Foot \"ft\" = ".toList ++ replicate 201 '(' ++ "<>".toList ++ replicate 201 ')' ++ [';']

/-- The keyword of the unit is in view. -/
def deepStart : State := startState none ⟨.identifier false, "unit", ⟨0, 4, 1, 1, 1, 4⟩⟩
  ((Token.allFrom .start deepFoot).filter (!·.kind.isTrivia)).tail

theorem nesting_bound_exact_deepFoot :
    ∃ us s' new, Reached none (String.ofList deepFoot) deepStart {} ∧ Takes deepStart us s' ∧
      Declaration us new ∧ ¬ new.NestsWithin maxNesting ∧ (step deepStart {}).2 = {} ∧
      ∃ t ∈ us, (step deepStart {}).1.faults =
        [.errorAt .parse t.span "Expression too deeply nested (max depth: 200)"] := by
  have hreached : Reached none (String.ofList deepFoot) deepStart {} := by
    refine .start ?_
    rw [Token.significant, Token.all, String.toList_ofList]
    decide +kernel
  have hdeep : (declarationWithin 201 deepStart).1.any
      (·.expressions.any (maxNesting < ·.nesting)) = true := by decide +kernel
  rcases hread : declarationWithin 201 deepStart with ⟨_ | new, s'⟩ <;> rw [hread] at hdeep
  · cases hdeep
  · obtain ⟨us, hus, hnew, -⟩ :=
      (accepts_declarationWithin 201 hreached.endsIn (by decide +kernel)).some_iff.mp hread
    obtain ⟨e, he, hnesting⟩ := any_eq_true.mp hdeep
    have hnot : ¬ new.NestsWithin maxNesting := fun hall =>
      Nat.not_le.mpr (of_decide_eq_true hnesting) (hall e he)
    obtain ⟨-, ⟨hall, -⟩ | ⟨-, hfound, t, ht, hfaults⟩⟩ :=
      (nesting_bound_exact none _).2.2 _ _ _ _ _ hreached hus hnew
    · exact (hnot hall).elim
    · exact ⟨us, s', new, hreached, hus, hnew, hnot, hfound, t, ht, hfaults⟩

end Declarations

end Quantity
