import Quantity.Proofs.Declaration.Clauses
import Quantity.Proofs.Declaration.Resynchronize

/-!
# Texts without faults

Nothing is reported about a text exactly if the grammar makes it up, and then what is read is what the
grammar says (`read_eq_iff`). A step that reports nothing takes a declaration or a semicolon
(`step_cases`), so that the steps of a whole text take it apart as the grammar puts it together
(`file_of_declarations`); the other way round, each rule of the grammar is one step
(`declarations_of_file`).
-/

namespace Quantity

open List

namespace Parser

open Grammar

variable {α : Type} {s s' : State} {ts : List Token}

/-! ### Reports -/

theorem reportLexError_eq (h : ∀ e, t.kind ≠ .error e) : reportLexError ds t = ds := by
  unfold reportLexError
  split
  · exact absurd ‹_› (h _)
  · rfl

theorem Takes.ne_error (h : Takes s ts s') (hs : s.Told) (hnone : s'.diagnostics.items = []) :
    ∀ t ∈ ts, ∀ e, t.kind ≠ .error e := by
  induction h with
  | nil => nofun
  | cons hrest h ih =>
    refine forall_mem_cons.mpr ⟨fun e he => ?_, ih (State.told_advance hrest) hnone⟩
    exact h.later.reported ((later_advance _).reported (hs e he)) hnone

theorem Takes.diagnostics_eq (h : Takes s ts s') (hs : ∀ t ∈ s.rest, ∀ e, t.kind ≠ .error e) :
    s'.diagnostics = s.diagnostics := by
  induction h with
  | nil => rfl
  | @cons s s' ts hrest _ ih =>
    obtain ⟨t, us, hus⟩ := exists_cons_of_ne_nil hrest
    have hadvance : s.advance = ⟨t, us, reportLexError s.diagnostics t⟩ := by
      rw [State.advance, hus]
    have ht : ∀ e, t.kind ≠ .error e := hs t (hus ▸ mem_cons_self)
    rw [hadvance, reportLexError_eq ht] at ih
    exact ih fun u hu => hs u (hus ▸ mem_cons_of_mem t hu)

/-! ### Steps -/

theorem Accepts.cases (h : Accepts x R s) (htold : s.Told) :
    (∃ s', x s = (none, s') ∧ s'.diagnostics.items ≠ []) ∨
      ∃ a ts s', x s = (some a, s') ∧ Takes s ts s' ∧ R ts a s'.kind := by
  have hreports := h.reports htold
  have hsome := @h.some_iff
  cases hread : x s with
  | mk a s' =>
    cases a with
    | none =>
      rw [hread] at hreports
      exact .inl ⟨s', rfl, hreports rfl⟩
    | some a =>
      obtain ⟨ts, hts, hR⟩ := hsome.mp hread
      exact .inr ⟨a, ts, s', rfl, hts, hR⟩

/-- The declaration of a unit or of a scale; its keyword is in view. -/
def declarationWithin (depth : Nat) : Parse Declarations := fun s =>
  if s.current.isKeyword .unit then
    (unitDeclarationWithin depth >>= fun u => pure { units := [u] }) s
  else (scaleDeclarationWithin depth >>= fun d => pure { scales := [d] }) s

theorem step_eq (h : s.current.startsDeclaration = true) (found : Declarations) :
    step s found = match declarationWithin maxNesting s with
      | (some new, s') => (s', found.append new)
      | (none, s') => (synchronize s', found) := by
  rw [step, declarationWithin]
  by_cases hunit : s.current.isKeyword .unit = true
  · simp only [if_pos hunit, Bind.bind, unitDeclaration_eq_within]
    rcases unitDeclarationWithin maxNesting s with ⟨_ | u, s'⟩ <;>
      simp [pure, Declarations.append]
  · have hscale : s.current.isKeyword .scale = true := by
      simpa [Token.startsDeclaration, hunit] using h
    simp only [if_neg hunit, if_pos hscale, Bind.bind, scaleDeclaration_eq_within]
    rcases scaleDeclarationWithin maxNesting s with ⟨_ | d, s'⟩ <;>
      simp [pure, Declarations.append]

theorem not_unit_of_scale {t : Token} (h : t.isKeyword .scale = true) :
    ¬ t.isKeyword .unit = true := by
  simp only [Token.isKeyword, Bool.and_eq_true, decide_eq_true_eq] at h ⊢
  rw [h.2]
  exact fun hunit => absurd hunit.2 (by decide)

theorem keyword_of_unit (h : UnitDeclaration ts u) (hts : Takes s ts s') :
    s.current.isKeyword .unit = true := by
  cases h
  rwa [← hts.eq_current]

theorem keyword_of_scale (h : ScaleDeclaration ts d) (hts : Takes s ts s') :
    s.current.isKeyword .scale = true := by
  cases h
  rwa [← hts.eq_current]

/-- **A declaration is recognized**, of a unit or of a scale. -/
theorem accepts_declarationWithin (depth : Nat) (hs : s.EndsIn .eof)
    (h : s.current.startsDeclaration = true) :
    Accepts (declarationWithin depth) (fun ts new _ =>
      Declaration ts new ∧ new.NestsWithin depth) s := by
  by_cases hunit : s.current.isKeyword .unit = true
  · have hread := (accepts_unitDeclarationWithin depth hs hunit).bind fun u _ s' _ _ =>
      accepts_pure ({ units := [u] } : Declarations) s'
    have heq : declarationWithin depth s = _ := if_pos hunit
    refine Accepts.congr ⟨heq ▸ hread.some_iff, heq ▸ hread.reports⟩ fun ts new s' hts => ?_
    constructor
    · rintro ⟨us, _, u, rfl, ⟨hu, hdepth⟩, rfl, rfl⟩
      rw [append_nil]
      exact ⟨.unit hu, Declarations.nestsWithin_unit.mpr hdepth⟩
    · rintro ⟨hu | hd, hdepth⟩
      · exact ⟨ts, [], _, (append_nil ts).symm, ⟨hu, Declarations.nestsWithin_unit.mp hdepth⟩, rfl,
          rfl⟩
      · exact absurd hunit (not_unit_of_scale (keyword_of_scale hd hts))
  · have hscale : s.current.isKeyword .scale = true := by
      simpa [Token.startsDeclaration, hunit] using h
    have hread := (accepts_scaleDeclarationWithin depth hs hscale).bind fun d _ s' _ _ =>
      accepts_pure ({ scales := [d] } : Declarations) s'
    have heq : declarationWithin depth s = _ := if_neg hunit
    refine Accepts.congr ⟨heq ▸ hread.some_iff, heq ▸ hread.reports⟩ fun ts new s' hts => ?_
    constructor
    · rintro ⟨us, _, d, rfl, ⟨hd, hdepth⟩, rfl, rfl⟩
      rw [append_nil]
      exact ⟨.scale hd, Declarations.nestsWithin_scale.mpr hdepth⟩
    · rintro ⟨hu | hd, hdepth⟩
      · exact absurd (keyword_of_unit hu hts) hunit
      · exact ⟨ts, [], _, (append_nil ts).symm, ⟨hd, Declarations.nestsWithin_scale.mp hdepth⟩, rfl,
          rfl⟩

theorem starts_of_declaration (h : Declaration ts new) (hts : Takes s ts s') :
    s.current.startsDeclaration = true := by
  cases h with
  | unit hu => simp [Token.startsDeclaration, keyword_of_unit hu hts]
  | scale hd => simp [Token.startsDeclaration, keyword_of_scale hd hts]

theorem file_of_declaration (h : Declaration ts new) (hdepth : new.NestsWithin maxNesting)
    (hmore : File us more) : File (ts ++ us) (new.append more) := by
  cases h with
  | unit hu => exact .unit hu (Declarations.nestsWithin_unit.mp hdepth) hmore
  | scale hd => exact .scale hd (Declarations.nestsWithin_scale.mp hdepth) hmore

/-- **A step takes a declaration or a semicolon**, if nothing is reported. -/
theorem step_cases (hs : s.EndsIn .eof) (htold : s.Told) (hne : s.kind ≠ .eof)
    (found : Declarations) :
    (step s found).1.diagnostics.items ≠ [] ∨
      ∃ ts s' new, ts ≠ [] ∧ Takes s ts s' ∧ step s found = (s', found.append new) ∧
        ∀ us more, File us more → File (ts ++ us) (new.append more) := by
  by_cases hstarts : s.current.startsDeclaration = true
  · rw [step_eq hstarts]
    rcases (accepts_declarationWithin maxNesting hs hstarts).cases htold with
      ⟨s', hread, hreported⟩ | ⟨new, ts, s', hread, hts, hnew, hdepth⟩ <;> rw [hread]
    · exact .inl ((later_synchronize s').reported hreported)
    · refine .inr ⟨ts, s', new, ?_, hts, rfl, fun us more => file_of_declaration hnew hdepth⟩
      rintro rfl
      rcases hnew with ⟨⟨⟩⟩ | ⟨⟨⟩⟩
  · simp only [Token.startsDeclaration, Bool.or_eq_true, not_or] at hstarts
    rw [step, if_neg hstarts.1, if_neg hstarts.2]
    split_ifs with hsemicolon
    · have hrest : s.rest ≠ [] := fun hnil => hne (hs.kind_eq hnil)
      refine .inr ⟨[s.current], s.advance, {}, cons_ne_nil _ _, .single hrest, ?_,
        fun us more hmore => ?_⟩
      · rw [Declarations.append_empty]
      · exact .semicolon hsemicolon hmore
    · have hread := accepts_unexpected (α := Unit) "'unit' or 'scale'" s
      exact .inl ((later_synchronize _).reported (hread.reports htold (unexpected_fst _ s)))

/-- **Steps that report nothing take declarations** up to the end. -/
theorem file_of_declarations (hs : s.EndsIn .eof) (htold : s.Told) (hfuel : s.rest.length < fuel)
    (hnone : (declarations fuel s found).1.diagnostics.items = []) :
    ∃ ts s' more, Takes s ts s' ∧ s'.kind = .eof ∧ File ts more ∧
      declarations fuel s found = (s', found.append more) := by
  induction fuel generalizing s found with
  | zero => omega
  | succ fuel ih =>
    by_cases heof : s.kind = .eof
    · refine ⟨[], s, {}, .nil s, heof, .nil, ?_⟩
      rw [declarations, if_pos heof, Declarations.append_empty]
    · rw [declarations_succ heof] at hnone ⊢
      rcases step_cases hs htold heof found with hreported | ⟨ts, s₁, new, hts, htakes, hstep, hfile⟩
      · exact absurd hnone ((later_declarations fuel _ _).reported hreported)
      · have hlength := htakes.length
        have hpos := length_pos_iff.mpr hts
        rw [hstep] at hnone ⊢
        obtain ⟨us, s', more, hus, hkind, hmore, hread⟩ :=
          ih (hs.later htakes.later) (htakes.told htold) (by omega) hnone
        refine ⟨ts ++ us, s', new.append more, htakes.append hus, hkind, hfile us more hmore, ?_⟩
        rw [hread, Declarations.append_assoc]

theorem step_of_semicolon (h : s.kind = .semicolon) (found : Declarations) :
    step s found = (s.advance, found) := by
  have hword (word : Keyword) : ¬ s.current.isKeyword word = true :=
    fun hword => absurd h (kind_ne (kind_of_isKeyword hword) nofun)
  rw [step, if_neg (hword .unit), if_neg (hword .scale), if_pos h]

theorem ne_eof_of_starts (h : s.current.startsDeclaration = true) : s.kind ≠ .eof := by
  intro heof
  simp [Token.startsDeclaration, Token.isKeyword, show s.current.kind = .eof from heof] at h

theorem step_of_declaration (h : Declaration ts new) (hdepth : new.NestsWithin maxNesting)
    (hs : s.EndsIn .eof) (hts : Takes s ts s') (found : Declarations) :
    s.kind ≠ .eof ∧ step s found = (s', found.append new) := by
  have hstarts := starts_of_declaration h hts
  have hread := (accepts_declarationWithin maxNesting hs hstarts).some_iff.mpr ⟨ts, hts, h, hdepth⟩
  exact ⟨ne_eof_of_starts hstarts, by rw [step_eq hstarts, hread]⟩

theorem declarations_of_step (hne : s.kind ≠ .eof) (hstep : step s found = (s₁, found.append new))
    (hus : Takes s us s₁) (hpos : us ≠ []) (hfuel : s.rest.length < fuel)
    (hmore : ∀ fuel, s₁.rest.length < fuel → declarations fuel s₁ (found.append new) =
      (s', (found.append new).append more)) :
    declarations fuel s found = (s', found.append (new.append more)) := by
  have hlength := hus.length
  have hpos := length_pos_iff.mpr hpos
  obtain ⟨fuel, rfl⟩ := Nat.exists_eq_add_of_lt hfuel
  rw [declarations_succ hne, hstep, hmore _ (by omega), Declarations.append_assoc]

/-- **Each rule of the grammar is one step.** -/
theorem declarations_of_file (h : File ts more) (hs : s.EndsIn .eof) (hts : Takes s ts s')
    (heof : s'.kind = .eof) (hfuel : s.rest.length < fuel) :
    declarations fuel s found = (s', found.append more) := by
  induction h generalizing s fuel found with
  | nil =>
    cases hts
    obtain ⟨fuel, rfl⟩ := Nat.exists_eq_add_of_lt hfuel
    rw [declarations, if_pos heof, Declarations.append_empty]
  | @semicolon t ts more ht _ ih =>
    cases hts with
    | cons hrest hts =>
      have hstep : step s found = (s.advance, found.append {}) := by
        rw [step_of_semicolon ht, Declarations.append_empty]
      exact declarations_of_step (kind_ne_eof ht (by decide)) hstep (.single hrest)
        (cons_ne_nil _ _) hfuel fun fuel => ih (hs.later (later_advance s)) hts
  | @unit us ts u more hu hshallow _ ih =>
    obtain ⟨s₁, hus, hts⟩ := hts.split
    obtain ⟨hne, hstep⟩ := step_of_declaration (.unit hu)
      (Declarations.nestsWithin_unit.mpr hshallow) hs hus found
    exact declarations_of_step hne hstep hus (by cases hu; simp) hfuel
      fun fuel => ih (hs.later hus.later) hts
  | @scale us ts d more hd hshallow _ ih =>
    obtain ⟨s₁, hus, hts⟩ := hts.split
    obtain ⟨hne, hstep⟩ := step_of_declaration (.scale hd)
      (Declarations.nestsWithin_scale.mpr hshallow) hs hus found
    exact declarations_of_step hne hstep hus (by cases hd; simp) hfuel
      fun fuel => ih (hs.later hus.later) hts

end Parser

namespace Token

/-- The mark of the end is the last one of the tokens, and stands nowhere else. -/
theorem exists_significant_concat (text : String) : ∃ ts e, significant text = ts ++ [e] ∧
    e.kind = .eof ∧ ∀ t ∈ ts, t.kind ≠ .eof := by
  obtain ⟨ts, hts, hne⟩ := exists_allFrom_eq .start text.toList
  refine ⟨ts.filter fun t => !t.kind.isTrivia,
    ⟨.eof, "", Span.ofText (Position.start.after text.toList) []⟩, ?_, rfl, fun t ht => hne t (mem_of_mem_filter ht)⟩
  rw [significant, all, hts, filter_append]
  rfl

/-- The tokens behind which there is the mark of the end are all the others. -/
theorem eq_nil_of_significant (h : significant text = us ++ e :: vs) (he : e.kind = .eof) :
    vs = [] := by
  obtain ⟨ts, last, hts, -, hne⟩ := exists_significant_concat text
  rcases eq_nil_or_concat vs with rfl | ⟨ws, w, rfl⟩
  · rfl
  · have hsplit : ts ++ [last] = (us ++ e :: ws) ++ [w] := by
      rw [← hts, h]
      simp
    obtain ⟨rfl, -⟩ := append_inj' hsplit rfl
    exact absurd he (hne e (by simp))

theorem mem_significant_of_error (h : t ∈ all text) (he : t.kind = .error e) :
    t ∈ significant text := by
  simp [significant, h, he, TokenKind.isTrivia]

end Token

namespace Declarations

open Quantity.Parser

/-- **A text is read without a report exactly if the grammar makes it up**: no token of it is
malformed, and its tokens are declarations with semicolons between them. What is read is what the
grammar says they are. -/
theorem read_eq_iff (source : Option String) (text : String) (found : Declarations) :
    read source text = (found, { source }) ↔
      (∀ t ∈ Token.all text, ∀ e, t.kind ≠ .error e) ∧ Grammar.Text text found := by
  obtain ⟨t, ts, htokens, hends⟩ := Token.exists_significant_eq text
  have hends : (startState source t ts).EndsIn .eof := hends
  have htold : (startState source t ts).Told := fun e he => reportLexError_ne_nil he
  constructor
  · intro hread
    obtain ⟨⟨last, got⟩, hrun⟩ :
        ∃ r, declarations (ts.length + 1) (startState source t ts) {} = r := ⟨_, rfl⟩
    rw [read_eq source htokens hrun, Prod.mk.injEq] at hread
    have hnone : last.diagnostics.items = [] := congrArg Diagnostics.items hread.2
    have hitems : (declarations (ts.length + 1) (startState source t ts) {}).1.diagnostics.items =
        [] := by rw [hrun]; exact hnone
    obtain ⟨us, s', more, hus, heof, hfile, hrun'⟩ := file_of_declarations hends htold
      (Nat.lt_succ_self ts.length) hitems
    obtain ⟨rfl, rfl⟩ := Prod.mk.inj (hrun.symm.trans hrun')
    obtain rfl : more = found := hread.1
    -- the tokens that were taken are all but the last one
    have hsplit : Token.significant text = us ++ last.current :: last.rest :=
      htokens.trans hus.tokens
    rw [Token.eq_nil_of_significant hsplit heof] at hsplit
    refine ⟨fun u hu e he => ?_, us, last.current, hsplit, heof, hfile⟩
    have hmem := Token.mem_significant_of_error hu he
    rw [hsplit, mem_append, mem_singleton] at hmem
    rcases hmem with hmem | rfl
    · exact hus.ne_error htold hnone u hmem e he
    · exact TokenKind.noConfusion (heof.symm.trans he)
  · rintro ⟨hwell, us, e, hus, he, hfile⟩
    have hwell' : ∀ u ∈ t :: ts, ∀ e, u.kind ≠ .error e := by
      intro u hu
      rw [← htokens] at hu
      exact hwell u (mem_of_mem_filter hu)
    obtain ⟨ht, hts⟩ := forall_mem_cons.mp hwell'
    rw [htokens] at hus
    obtain ⟨s', htakes, hs'⟩ := Takes.exists_of_tokens (s := startState source t ts) hus
    have heof : s'.kind = .eof := (congrArg Token.kind (List.cons.inj hs').1).trans he
    have hstart : (startState source t ts).diagnostics = { source } := reportLexError_eq ht
    rw [read_eq source htokens
        (declarations_of_file hfile hends htakes heof (Nat.lt_succ_self _)),
      empty_append, htakes.diagnostics_eq hts, hstart]

end Declarations

end Quantity
