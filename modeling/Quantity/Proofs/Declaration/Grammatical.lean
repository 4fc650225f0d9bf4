import Quantity.Proofs.Declaration.Faultless

/-!
# Whatever is read is grammatical

A fault makes the reader give up a declaration and skip the rest of it, but what is found in the end
is made up of tokens of the text by the grammar all the same (`Declarations.read_grammatical`). So its
expressions have the shape that the grammar gives them: operands of products are not sums, operands on
the right are no products either, and signs stand in front of factors (`Expr.Shaped`). Definitions of
units have no sums and no signs at all (`Declarations.read_isProduct`).
-/

namespace Quantity

open Grammar List

/-! ### Leaves -/

/-- The text is a name among the tokens. -/
def Named (ts : List Token) (s : String) : Prop := ∃ t ∈ ts, IsName t ∧ t.value = s

/-- The text stands in quotes among the tokens. -/
def Quoted (ts : List Token) (s : String) : Prop := ∃ t ∈ ts, t.kind = .string ∧ t.value = s

/-- The text is a numeral among the tokens. -/
def Numbered (ts : List Token) (s : String) : Prop := ∃ t ∈ ts, t.kind = .number ∧ t.value = s

section Leaves

variable {ts us : List Token} {s : String}

theorem Named.mono (h : Named ts s) (hsub : ts ⊆ us) : Named us s := by
  obtain ⟨t, ht, hname⟩ := h
  exact ⟨t, hsub ht, hname⟩

theorem Quoted.mono (h : Quoted ts s) (hsub : ts ⊆ us) : Quoted us s := by
  obtain ⟨t, ht, hquoted⟩ := h
  exact ⟨t, hsub ht, hquoted⟩

theorem Numbered.mono (h : Numbered ts s) (hsub : ts ⊆ us) : Numbered us s := by
  obtain ⟨t, ht, hnumber⟩ := h
  exact ⟨t, hsub ht, hnumber⟩

end Leaves

namespace Expr

def IsLeaf (ts : List Token) : Expr → Prop
  | number s _ => Numbered ts s
  | magnitude _ _ => True
  | literal s _ => Named ts s ∨ Quoted ts s
  | reference s _ => Named ts s
  | _ => False

theorem IsLeaf.mono {e : Expr} (h : e.IsLeaf ts) (hsub : ts ⊆ us) : e.IsLeaf us := by
  cases e with
  | number s _ => exact Numbered.mono h hsub
  | magnitude => trivial
  | literal s _ => exact Or.imp (·.mono hsub) (·.mono hsub) h
  | reference s _ => exact Named.mono h hsub
  | _ => exact h

/-! ### Shapes -/

/-- What an expression may be without parentheses around it. -/
inductive Level
  | factor
  | product
  | sum

/-- **The shape of an expression** of a level, with leaves among the tokens; `sums` says whether there
may be sums and signs. -/
inductive Shaped (ts : List Token) (sums : Prop) : Level → Expr → Prop
  | leaf {e : Expr} : e.IsLeaf ts → Shaped ts sums .factor e
  | signed {negative : Bool} {e : Expr} : sums → Shaped ts sums .factor e →
    Shaped ts sums .factor (.signed negative e)
  | paren {e : Expr} : Shaped ts sums .sum e → Shaped ts sums .factor (.paren e)
  | ofFactor {e : Expr} : Shaped ts sums .factor e → Shaped ts sums .product e
  | product {op : Arith} {l r : Expr} : op = .product ∨ op = .quotient →
    Shaped ts sums .product l → Shaped ts sums .factor r → Shaped ts sums .product (.arith op l r)
  | ofProduct {e : Expr} : Shaped ts sums .product e → Shaped ts sums .sum e
  | sum {op : Arith} {l r : Expr} : sums → op = .sum ∨ op = .difference →
    Shaped ts sums .sum l → Shaped ts sums .product r → Shaped ts sums .sum (.arith op l r)

theorem Shaped.mono {e : Expr} (h : e.Shaped ts sums level) (hsub : ts ⊆ us) :
    e.Shaped us sums level := by
  induction h with
  | leaf h => exact .leaf (h.mono hsub)
  | signed hs _ ih => exact .signed hs ih
  | paren _ ih => exact .paren ih
  | ofFactor _ ih => exact .ofFactor ih
  | product hop _ _ ihl ihr => exact .product hop ihl ihr
  | ofProduct _ ih => exact .ofProduct ih
  | sum hs hop _ _ ihl ihr => exact .sum hs hop ihl ihr

theorem Shaped.isProduct {e : Expr} (h : e.Shaped ts False level) : e.IsProduct := by
  induction h with
  | @leaf e h => cases e <;> trivial
  | signed hs | sum hs => exact hs.elim
  | paren _ ih | ofFactor _ ih | ofProduct _ ih => exact ih
  | product hop _ _ ihl ihr => exact ⟨hop, ihl, ihr⟩

end Expr

namespace Grammar

section Expressions

variable {ts : List Token} {t : Token} {e : Expr} {sums : Prop}

theorem subset_group : ts ⊆ o :: (ts ++ [c]) :=
  fun _ hx => mem_cons_of_mem _ (mem_append_left _ hx)

theorem ProductSign.op {op : Arith} (h : ProductSign k op) : op = .product ∨ op = .quotient := by
  cases h <;> simp

theorem SumSign.op {op : Arith} (h : SumSign k op) : op = .sum ∨ op = .difference := by
  cases h <;> simp

/-- A chain has the shape of its level, if its operands, none of which goes deeper, have that of the
level below. -/
theorem Chain.shaped (h : Chain sign operand ts e)
    (hsingle : ∀ {us} {e' : Expr}, e'.Shaped us sums lower → e'.Shaped us sums upper)
    (hjoin : ∀ {us k op} {l r : Expr}, sign k op → l.Shaped us sums upper → r.Shaped us sums lower →
      (Expr.arith op l r).Shaped us sums upper)
    (ho : ∀ us e', e'.nesting ≤ e.nesting → operand us e' → e'.Shaped us sums lower) :
    e.Shaped ts sums upper := by
  induction h with
  | single h => exact hsingle (ho _ _ (Nat.le_refl _) h)
  | @join ls rs t op l r _ hsign hr ih =>
    have hl := ih fun us e' hle => ho us e' (Nat.le_trans hle (Nat.le_max_left _ _))
    have hr := ho rs r (Nat.le_max_right _ _) hr
    exact hjoin hsign (hl.mono (subset_append_left _ _))
      (hr.mono fun x hx => mem_append_right _ (mem_cons_of_mem _ hx))

theorem shaped_productChain (h : Chain ProductSign operand ts e)
    (ho : ∀ us e', e'.nesting ≤ e.nesting → operand us e' → e'.Shaped us sums .factor) :
    e.Shaped ts sums .product :=
  h.shaped .ofFactor (fun hsign => .product hsign.op) ho

theorem shaped_sumChain (h : Chain SumSign operand ts e)
    (ho : ∀ us e', e'.nesting ≤ e.nesting → operand us e' → e'.Shaped us True .product) :
    e.Shaped ts True .sum :=
  h.shaped .ofProduct (fun hsign => .sum trivial hsign.op) ho

theorem shaped_name (h : IsName t) : Named [t] t.value := ⟨t, mem_singleton_self t, h, rfl⟩

theorem shaped_string (h : t.kind = .string) : Quoted [t] t.value :=
  ⟨t, mem_singleton_self t, h, rfl⟩

theorem shaped_number (h : t.kind = .number) : Numbered [t] t.value :=
  ⟨t, mem_singleton_self t, h, rfl⟩

-- the induction is on how deep the term goes: a group holds a chain of terms that go less deep
theorem DimensionTerm.shaped (h : DimensionTerm ts e) : e.Shaped ts sums .factor := by
  induction hn : e.nesting using Nat.strongRecOn generalizing ts e with
  | ind n ih =>
    cases h with
    | plain | magnitude => exact .leaf trivial
    | number ht => exact .leaf (shaped_number ht)
    | string ht => exact .leaf (.inr (shaped_string ht))
    | constant ht => exact .leaf (.inl (shaped_name ht.isName))
    | reference ht => exact .leaf (shaped_name ht.1)
    | group _ hchain _ =>
      subst hn
      have he := shaped_productChain hchain fun us e' hle hterm =>
        ih e'.nesting (Nat.lt_succ_of_le hle) hterm rfl
      exact .paren (.ofProduct (he.mono subset_group))

theorem DimensionPhrase.shaped (h : DimensionPhrase ts e) : e.Shaped ts sums .product :=
  shaped_productChain h fun _ _ _ => DimensionTerm.shaped

theorem Factor.shaped (h : Factor ts e) : e.Shaped ts True .factor := by
  induction hn : e.nesting using Nat.strongRecOn generalizing ts e with
  | ind n ih =>
    cases h with
    | @positive t ts e _ h | @negative t ts e _ h =>
      subst hn
      have he := ih e.nesting (Nat.lt_succ_self _) h rfl
      exact .signed trivial (he.mono (subset_cons_self _ _))
    | number ht => exact .leaf (shaped_number ht)
    | string ht => exact .leaf (.inr (shaped_string ht))
    | constant ht => exact .leaf (.inl (shaped_name ht.isName))
    | ofUnit ht => exact .leaf ((shaped_name ht.1).mono (by simp))
    | group _ hchain _ =>
      subst hn
      have he := shaped_sumChain hchain fun us e' hle hproduct =>
        shaped_productChain hproduct fun vs e'' hle' hfactor =>
          ih e''.nesting (Nat.lt_succ_of_le (Nat.le_trans hle' hle)) hfactor rfl
      exact .paren (he.mono subset_group)

theorem NumeralPhrase.shaped (h : NumeralPhrase ts e) : e.Shaped ts True .sum :=
  shaped_sumChain h fun _ _ _ hproduct => shaped_productChain hproduct fun _ _ _ => Factor.shaped

end Expressions

end Grammar

/-! ### Declarations -/

/-- Each declaration that was found is made up of some of the tokens. -/
structure Declarations.Grammatical (ts : List Token) (found : Declarations) : Prop where
  units : ∀ d ∈ found.units, d.IsShallow ∧ ∃ us, us ⊆ ts ∧ UnitDeclaration us d
  scales : ∀ d ∈ found.scales, d.IsShallow ∧ ∃ us, us ⊆ ts ∧ ScaleDeclaration us d

namespace Parser

variable {s : State} {ts : List Token} {found : Declarations}

/-- **One step finds a declaration of the grammar, or none.** -/
theorem step_found (hs : s.EndsIn .eof) (found : Declarations) : (step s found).2 = found ∨
    ∃ us s' new, Takes s us s' ∧ Declaration us new ∧ new.NestsWithin maxNesting ∧
      step s found = (s', found.append new) := by
  by_cases hstarts : s.current.startsDeclaration = true
  · rw [step_eq hstarts]
    rcases hread : declarationWithin maxNesting s with ⟨_ | new, s'⟩
    · exact .inl rfl
    · obtain ⟨us, hus, hnew, hdepth⟩ :=
        (accepts_declarationWithin maxNesting hs hstarts).some_iff.mp hread
      exact .inr ⟨us, s', new, hus, hnew, hdepth, rfl⟩
  · simp only [Token.startsDeclaration, Bool.or_eq_true, not_or] at hstarts
    rw [step, if_neg hstarts.1, if_neg hstarts.2]
    split_ifs <;> exact .inl rfl

theorem step_grammatical (hs : s.EndsIn .eof) (hts : s.tokens ⊆ ts) (h : found.Grammatical ts) :
    (step s found).2.Grammatical ts := by
  rcases step_found hs found with hsame | ⟨us, s', new, hus, hnew, hdepth, hstep⟩
  · rwa [hsame]
  · have hsub : us ⊆ ts := fun t ht => hts (by rw [hus.tokens]; exact mem_append_left _ ht)
    rw [hstep]
    cases hnew with
    | unit hu =>
      refine ⟨forall_mem_append.mpr ⟨h.units, forall_mem_singleton.mpr ?_⟩, ?_⟩
      · exact ⟨Declarations.nestsWithin_unit.mp hdepth, us, hsub, hu⟩
      · simpa [Declarations.append] using h.scales
    | scale hd =>
      refine ⟨?_, forall_mem_append.mpr ⟨h.scales, forall_mem_singleton.mpr ?_⟩⟩
      · simpa [Declarations.append] using h.units
      · exact ⟨Declarations.nestsWithin_scale.mp hdepth, us, hsub, hd⟩

theorem declarations_grammatical (fuel : Nat) (hs : s.EndsIn .eof) (hts : s.tokens ⊆ ts)
    (h : found.Grammatical ts) : (declarations fuel s found).2.Grammatical ts := by
  induction fuel generalizing s found with
  | zero => exact h
  | succ fuel ih =>
    by_cases heof : s.kind = .eof
    · rw [declarations, if_pos heof]
      exact h
    · rw [declarations_succ heof]
      have hlater : Later s (step s found).1 := by
        obtain ⟨past, s', new, hsteps⟩ := exists_steps s
        rw [hsteps.step_eq]
        exact hsteps.stops.later_leave
      exact ih (hs.later hlater) (List.Subset.trans hlater.tokens.subset hts)
        (step_grammatical hs hts h)

end Parser

namespace Declarations

/-- **Whatever text is read, faults and all, the grammar makes up what is found.** -/
theorem read_grammatical (source : Option String) (text : String) :
    (read source text).1.Grammatical (Token.significant text) := by
  obtain ⟨t, ts, htokens, hends⟩ := Token.exists_significant_eq text
  have hends : (startState source t ts).EndsIn .eof := hends
  have hnone : ({} : Declarations).Grammatical (t :: ts) := ⟨by simp, by simp⟩
  cases hrun : Parser.declarations (ts.length + 1) (startState source t ts) {} with
  | mk s found =>
    have hfound := Parser.declarations_grammatical (ts.length + 1) hends (fun _ ht => ht) hnone
    rw [hrun] at hfound
    rw [read_eq source htokens hrun, htokens]
    exact hfound

end Declarations

theorem Grammar.Alternatives.shaped (h : Alternatives ts es) :
    ∀ e ∈ es, e.Shaped ts sums .product := by
  induction h with
  | nil => exact nofun
  | @cons bar ts us e es _ hphrase _ ih =>
    intro e' he'
    rcases mem_cons.mp he' with rfl | he'
    · refine (DimensionPhrase.shaped hphrase).mono fun x hx => ?_
      exact mem_cons_of_mem _ (mem_append_left _ hx)
    · refine (ih e' he').mono fun x hx => ?_
      exact mem_cons_of_mem _ (mem_append_right _ hx)

theorem Grammar.UnitDeclaration.shaped (h : UnitDeclaration ts d) :
    ∀ e ∈ d.definitions, e.Shaped ts sums .product := by
  obtain ⟨-, -, -, -, -, -, -, hdefinition, halternatives, -⟩ := h
  intro e he
  rcases mem_cons.mp he with rfl | he
  · exact (DimensionPhrase.shaped hdefinition).mono fun t ht => by simp [ht]
  · exact (halternatives.shaped e he).mono fun t ht => by simp [ht]

theorem Grammar.ScaleDeclaration.shaped (h : ScaleDeclaration ts d) :
    d.offset.Shaped ts True .sum := by
  obtain ⟨-, -, -, -, -, ⟨hphrase, -, -⟩ | ⟨-, hphrase⟩, -⟩ := h
  · exact (NumeralPhrase.shaped hphrase).mono fun t ht => by simp [ht]
  · exact (NumeralPhrase.shaped hphrase).mono fun t ht => by simp [ht]

/-- **Whatever text is read, its units are defined by products and quotients.** -/
theorem Declarations.read_isProduct (source : Option String) (text : String) :
    ∀ d ∈ (read source text).1.units, d.IsProduct := by
  intro d hd e he
  obtain ⟨-, us, -, hu⟩ := (read_grammatical source text).units d hd
  exact (hu.shaped e he).isProduct

theorem Declarations.shaped_definition (h : e ∈ (read source text).1.definitions) :
    e.Shaped (Token.all text) sums .product := by
  obtain ⟨d, hd, he⟩ := mem_flatMap.mp h
  obtain ⟨-, us, hus, hdecl⟩ := (read_grammatical source text).units d hd
  exact (hdecl.shaped e he).mono (List.Subset.trans hus fun _ => mem_of_mem_filter)

end Quantity
