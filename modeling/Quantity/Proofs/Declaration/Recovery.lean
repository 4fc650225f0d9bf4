import Mathlib.Data.List.Pairwise
import Quantity.Proofs.Declaration.Faultless
import Quantity.Proofs.Declaration.Reported

/-!
# Recovery from faults

Reading never gets stuck. Every loop takes a token in each round, so that the tokens bound its
rounds (`Ends`), and every step takes one as well. Malformed tokens are reported when they come into view:
those that were reported and those to come are always the same in all (`Later.lexReports`). Where a
declaration is given up, a report was added behind its keyword (`State.GivesUp.exists_reports`). In
whole: `read_recovers`.
-/

namespace Quantity

open List

/-! ### Places of tokens -/

theorem Position.lt_offset_next (p : Position) (c : Char) : p.offset < (p.next c).offset := by
  have hoffset : (p.next c).offset = p.offset + c.utf8Size := by
    unfold next
    split_ifs <;> rfl
  rw [hoffset]
  exact Nat.lt_add_of_pos_right c.utf8Size_pos

theorem Position.le_offset_after (p : Position) (cs : List Char) :
    p.offset ≤ (p.after cs).offset := by
  induction cs generalizing p with
  | nil => exact Nat.le_refl _
  | cons c cs ih => exact Nat.le_trans (Nat.le_of_lt (p.lt_offset_next c)) (ih _)

namespace Token

/-- The one token ends before the other begins. -/
def Precedes (t u : Token) : Prop := t.span.start < t.span.stop ∧ t.span.stop ≤ u.span.start

theorem pairwise_allFrom (p : Position) (cs : List Char) :
    (allFrom p cs).Pairwise Precedes ∧
      ∀ t ∈ allFrom p cs, p.offset ≤ t.span.start ∧ t.span.start ≤ t.span.stop := by
  fun_induction allFrom p cs with
  | case1 p => simp [Span.ofText, Position.after]
  | case2 p c cs l ih =>
    have hlt : p.offset < (p.after (c :: l.tail)).offset :=
      Nat.lt_of_lt_of_le (p.lt_offset_next c) (Position.le_offset_after _ l.tail)
    refine ⟨pairwise_cons.mpr ⟨fun u hu => ⟨hlt, (ih.2 u hu).1⟩, ih.1⟩, ?_⟩
    refine forall_mem_cons.mpr ⟨⟨Nat.le_refl _, Nat.le_of_lt hlt⟩, fun u hu => ?_⟩
    exact ⟨Nat.le_trans (Nat.le_of_lt hlt) (ih.2 u hu).1, (ih.2 u hu).2⟩

end Token

namespace Parser

variable {α β : Type} {s s' : State}

/-! ### Loops -/

theorem Agrees.later (h : Agrees k f x x') (hk : k.behind = []) (s : State) : Later s (x s).2 :=
  (h s (.inl hk)).later

/-- **A loop ends**: it makes no more rounds than there are tokens. -/
def Ends (loop : Nat → Parse α) : Prop :=
  ∀ s fuel, s.EndsIn .eof → s.rest.length ≤ fuel → loop fuel s = loop s.rest.length s

/-- A loop ends if it stops at the last token and every round takes one. -/
theorem ends_of_rounds (loop : ι → Nat → Parse α)
    (hlast : ∀ i n s, s.kind = .eof → loop i (n + 1) s = loop i 0 s)
    (hround : ∀ i n m s, (∀ j s', Later s.advance s' → loop j n s' = loop j m s') →
      loop i (n + 1) s = loop i (m + 1) s)
    (i : ι) : Ends (loop i) := by
  have hsame (n m : Nat) : ∀ i s, s.EndsIn .eof → s.rest.length ≤ n → s.rest.length ≤ m →
      loop i n s = loop i m s := by
    induction n generalizing m with
    | zero =>
      intro i s hends hn _
      cases m with
      | zero => rfl
      | succ m => exact (hlast i m s (hends.kind_eq (length_eq_zero_iff.mp (by omega)))).symm
    | succ n ih =>
      intro i s hends hn hm
      cases m with
      | zero => exact hlast i n s (hends.kind_eq (length_eq_zero_iff.mp (by omega)))
      | succ m =>
        refine hround i n m s fun j s' hlater => ?_
        have hlength := hlater.length_le
        rw [length_advance] at hlength
        exact ih m j s' ((hends.later (later_advance s)).later hlater) (by omega) (by omega)
  exact fun s fuel hends hfuel => hsame _ _ i s hends hfuel (Nat.le_refl _)

theorem bind_congr_left {x x' : Parse α} {y : α → Parse β} (h : x s = x' s) :
    (x >>= y) s = (x' >>= y) s := by
  simp only [Bind.bind, h]

theorem bind_congr_right {x : Parse α} {y y' : α → Parse β}
    (h : ∀ a, (x s).1 = some a → y a (x s).2 = y' a (x s).2) : (x >>= y) s = (x >>= y') s := by
  cases hx : x s with
  | mk a s' =>
    rw [hx] at h
    cases a with
    | none => rw [bind_of_none hx, bind_of_none hx]
    | some a => rw [bind_of_some hx, bind_of_some hx, h a rfl]

theorem ends_tags : Ends tags := by
  refine ends_of_rounds (fun _ : Unit => tags) (fun _ n s hkind => ?_) (fun _ n m s hround => ?_) ()
  · have hne : s.current.kind ≠ .string := kind_ne hkind nofun
    exact congrFun (if_neg hne) s
  · show (if s.current.kind = .string then _ else _ : Parse (List String)) s =
      (if s.current.kind = .string then _ else _ : Parse (List String)) s
    split_ifs
    · exact bind_congr_left (hround () s.advance (.refl _))
    · rfl

theorem ends_alternatives {definition : Parse Expr} (h : ∀ s, Later s (definition s).2) :
    Ends (alternativesWith definition) := by
  refine ends_of_rounds (fun _ : Unit => alternativesWith definition) (fun _ n s hkind => ?_)
    (fun _ n m s hround => ?_) ()
  · have hne : s.current.kind ≠ .pipe := kind_ne hkind nofun
    exact congrFun (if_neg hne) s
  · show (if s.current.kind = .pipe then _ else _ : Parse (List Expr)) s =
      (if s.current.kind = .pipe then _ else _ : Parse (List Expr)) s
    split_ifs
    · show (definition >>= _) s.advance = (definition >>= _) s.advance
      exact bind_congr_right fun e _ => bind_congr_left (hround () _ (h s.advance))
    · rfl

theorem ends_chainFrom {operand : Parse Expr} {operator? : TokenKind → Option Arith}
    (hoperand : ∀ s, Later s (operand s).2) (heof : operator? .eof = none) (left : Expr) :
    Ends fun fuel => chainFrom operand operator? fuel left := by
  refine ends_of_rounds (fun left fuel => chainFrom operand operator? fuel left)
    (fun left n s hkind => ?_) (fun left n m s hround => ?_) left
  · have hnone : operator? s.current.kind = none := by rwa [show s.current.kind = _ from hkind]
    rw [chainFrom, chainFrom, bind_look, hnone]
  · rw [chainFrom, chainFrom, bind_look, bind_look]
    cases operator? s.current.kind with
    | none => rfl
    | some op =>
      show (operand >>= _) s.advance = (operand >>= _) s.advance
      exact bind_congr_right fun e _ => hround _ _ (hoperand s.advance)

theorem ends_run {depth count : Nat} {loop : Nat → Counted α} {within : Nat → Parse α}
    (h : ∀ fuel, Counts depth (loop fuel) (within fuel)) (hcount : count + depth = maxNesting)
    (hends : Ends within) : Ends fun fuel => (loop fuel).run count := by
  have hsame : (fun fuel => (loop fuel).run count) = within :=
    funext fun fuel => (h fuel).run_eq hcount
  rwa [hsame]

/-- **The loops of expressions end**, however many signs and parentheses are open. The bound `nesting`
on the recursion is then at least what may still be opened. -/
theorem ends_counted {count : Nat} (hcount : count ≤ maxNesting) :
    Ends (fun fuel => (alternativesWith dimension fuel).run count) ∧
      ∀ nesting left, maxNesting ≤ count + nesting →
        Ends (fun fuel =>
          (chainFrom (dimensionTerm nesting) productOperator? fuel left).run count) ∧
        Ends (fun fuel =>
          (chainFrom (numeralFactor nesting) productOperator? fuel left).run count) ∧
        Ends (fun fuel => (chainFrom (chain (numeralFactor nesting) productOperator?) sumOperator?
          fuel left).run count) := by
  have hdepth : count + (maxNesting - count) = maxNesting := by omega
  have hterm := (agrees_dimensionTerm (k := .none) (maxNesting - count)).later rfl
  have hfactor := (agrees_numeralFactor (k := .none) (maxNesting - count)).later rfl
  have hproduct := (agrees_chain (agrees_numeralFactor (k := .none) (maxNesting - count))
    (show productOperator? .semicolon = none from rfl)).later rfl
  have hdimension := (agrees_dimensionOf (agrees_dimensionTerm (k := .none) (maxNesting - count))).later
    rfl
  have hR := isCongruence_counts (maxNesting - count)
  refine ⟨ends_run (hR.alternativesWith (counts_dimension (by omega))) hdepth
    (ends_alternatives hdimension), fun nesting left hnesting => ?_⟩
  have hcounted := @counts_numeralFactor (maxNesting - count) nesting (by omega)
  refine ⟨?_, ?_, ?_⟩
  · exact ends_run (fun fuel => hR.chainFrom (counts_dimensionTerm (by omega)) _ fuel left) hdepth
      (ends_chainFrom hterm rfl left)
  · exact ends_run (fun fuel => hR.chainFrom hcounted _ fuel left) hdepth
      (ends_chainFrom hfactor rfl left)
  · exact ends_run (fun fuel => hR.chainFrom (hR.chain hcounted _) _ fuel left) hdepth
      (ends_chainFrom hproduct rfl left)

/-! ### Malformed tokens -/

/-- What is reported about a malformed token. -/
def lexReport? (source : Option String) (t : Token) : Option Diagnostic :=
  match t.kind with
  | .error e => some { Diagnostic.errorAt .lex t.span e.message with source }
  | _ => none

theorem lexReport?_eq_none (h : ∀ e, t.kind ≠ .error e) : lexReport? source t = none := by
  unfold lexReport?
  split
  · exact absurd ‹_› (h _)
  · rfl

/-- The reports about malformed tokens, and those to come. -/
def State.lexReports (s : State) : List Diagnostic :=
  s.diagnostics.items.filter (·.stage = .lex) ++ s.rest.filterMap (lexReport? s.diagnostics.source)

theorem lexReports_view (ds : Diagnostics) (t : Token) (ts : List Token) :
    State.lexReports ⟨t, ts, reportLexError ds t⟩ =
      ds.items.filter (·.stage = .lex) ++ (t :: ts).filterMap (lexReport? ds.source) := by
  by_cases hkind : ∀ e, t.kind ≠ .error e
  · rw [reportLexError_eq hkind, filterMap_cons_none (lexReport?_eq_none hkind)]
    rfl
  · obtain ⟨e, he⟩ := not_forall_not.mp hkind
    simp [State.lexReports, reportLexError, lexReport?, he, Diagnostics.push, Diagnostic.errorAt]

theorem lexReports_advance (s : State) : s.advance.lexReports = s.lexReports := by
  rw [State.advance]
  split
  · rfl
  · rename_i t ts hrest
    rw [lexReports_view, ← hrest]
    rfl

/-- **Malformed tokens are reported when they come into view**, and nothing else is reported about
them. -/
theorem Later.lexReports (h : Later s s') : s'.lexReports = s.lexReports := by
  have hreport (s : State) (span : Span) (message : String) :
      (s.report span message).lexReports = s.lexReports := by
    simp [State.lexReports, State.report, Diagnostics.push, Diagnostic.errorAt]
  induction h with
  | refl => rfl
  | advance _ ih => rw [lexReports_advance, ih]
  | here message _ _ ih => rw [hreport, ih]
  | behind message _ _ ih => rw [hreport, lexReports_advance, ih]

/-! ### Declarations that are given up -/

/-- The declaration whose keyword is in view is given up. -/
def State.GivesUp (s : State) : Prop :=
  s.current.isKeyword .unit = true ∧ (unitDeclaration s).1 = none ∨
    s.current.isKeyword .scale = true ∧ (scaleDeclaration s).1 = none

/-- The state as if nothing had been reported. -/
def State.silent (s : State) : State :=
  { s with diagnostics := { s.diagnostics with items := [] } }

/-- What was reported before is a context. -/
def State.reported (s : State) : Context := ⟨id, s.diagnostics.items, [], Context.none.upTo⟩

theorem state_silent (s : State) : s.reported.state s.silent = s := by
  simp [State.reported, State.silent, Context.state, Context.diagnostics]

namespace IsDeclaration

variable {x : Parse α} {move : (Span → Span) → α → α} {clauses : Token → Parse α}
  {close : α → Token → α}

theorem later (h : IsDeclaration x move clauses close) (hkind : s.kind ≠ .semicolon) :
    Later s.advance (x s).2 := by
  obtain ⟨a, s', hstops, heq⟩ := h.exists_read hkind
  have hread := heq .none (.inl rfl)
  rw [Context.state_none, Context.state_none] at hread
  rw [hread]
  exact hstops.later_leave

theorem exists_reports (h : IsDeclaration x move clauses close) (hread : Accepts x R s.silent)
    (hkind : s.kind = .identifier false) (hnone : (x s).1 = none) :
    ∃ s' new, x s = (none, s') ∧ Later s.advance s' ∧ new ≠ [] ∧
      s'.diagnostics.items = s.diagnostics.items ++ new := by
  obtain ⟨a, s', hstops, heq⟩ := h.exists_read (s := s.silent) (kind_ne hkind nofun)
  -- without and with what was reported before
  have hsilent := heq .none (.inl rfl)
  have hboth := heq s.reported (.inl rfl)
  rw [Context.state_none, Context.state_none] at hsilent
  rw [state_silent] at hboth
  cases a with
  | some a =>
    rw [hboth] at hnone
    cases hnone
  | none =>
    have htold : s.silent.Told := fun e he => absurd he (kind_ne hkind nofun)
    have hreports := hread.reports htold
    rw [hsilent] at hreports
    refine ⟨s.reported.state s', s'.diagnostics.items, hboth, ?_, hreports rfl, ?_⟩
    · have hlater := h.later (kind_ne hkind nofun)
      rwa [hboth] at hlater
    · simp [Context.state, Context.diagnostics, State.reported]

end IsDeclaration

theorem ReportedAt.span_eq (h : ReportedAt source t d) : d.span = some t.span := by
  cases h <;> rfl

namespace State.GivesUp

theorem ne_eof (h : s.GivesUp) : s.kind ≠ .eof := by
  rcases h with ⟨hunit, -⟩ | ⟨hscale, -⟩
  · exact kind_ne (kind_of_isKeyword hunit) nofun
  · exact kind_ne (kind_of_isKeyword hscale) nofun

theorem step_eq (h : s.GivesUp) (hends : s.EndsIn .eof) (found : Declarations) : ∃ s' new,
    step s found = (synchronize s', found) ∧ Later s.advance s' ∧ new ≠ [] ∧
      s'.diagnostics.items = s.diagnostics.items ++ new := by
  rcases h with ⟨hunit, hnone⟩ | ⟨hscale, hnone⟩
  · obtain ⟨s', new, hread, hs'⟩ := isDeclaration_unit.exists_reports
      (accepts_unitDeclaration (s := s.silent) hends hunit) (kind_of_isKeyword hunit) hnone
    refine ⟨s', new, ?_, hs'⟩
    rw [step, if_pos hunit, hread]
  · obtain ⟨s', new, hread, hs'⟩ := isDeclaration_scale.exists_reports
      (accepts_scaleDeclaration (s := s.silent) hends hscale) (kind_of_isKeyword hscale) hnone
    refine ⟨s', new, ?_, hs'⟩
    rw [step, if_neg (not_unit_of_scale hscale), if_pos hscale, hread]

/-- **A declaration that is given up is reported behind its keyword**, and not behind the token
where reading goes on. -/
theorem exists_reports (h : s.GivesUp) (hends : s.EndsIn .eof) (found : Declarations) :
    ∃ taken new, s.rest = taken ++ (step s found).1.tokens ∧
      (step s found).1.diagnostics.items = s.diagnostics.items ++ new ∧ new ≠ [] ∧
      ∀ d ∈ new, ∃ t ∈ taken ++ [(step s found).1.current], d.span = some t.span := by
  obtain ⟨s', new, hstep, hlater, hnew, hitems⟩ := h.step_eq hends found
  obtain ⟨t, ts, hrest⟩ := exists_cons_of_ne_nil fun hnil => h.ne_eof (hends.kind_eq hnil)
  obtain ⟨first, hfirst, hreports⟩ := exists_reportLexError s.diagnostics t
  have hadvance : s.advance = ⟨t, ts, reportLexError s.diagnostics t⟩ := by
    rw [State.advance, hrest]
  obtain ⟨skipped, late, hskip⟩ := (later_synchronize s').passes
  obtain ⟨taken, more, hpasses⟩ := (hlater.trans (later_synchronize s')).passes
  rw [hadvance] at hpasses
  rw [hstep]
  have hview : t :: ts = taken ++ (synchronize s').tokens := hpasses.tokens
  have htotal : (synchronize s').diagnostics.items = s.diagnostics.items ++ (first ++ more) := by
    rw [hpasses.items, ← List.append_assoc]
    exact congrArg (· ++ more) hfirst
  refine ⟨taken, first ++ more, hrest.trans hview, htotal, ?_, forall_mem_append.mpr ⟨?_, ?_⟩⟩
  · intro hnil
    rw [hskip.items, hitems, hnil, List.append_assoc] at htotal
    exact hnew (append_eq_nil_iff.mp (append_cancel_left htotal)).1
  · have ht : t ∈ taken ++ [(synchronize s').current] := by
      cases taken with
      | nil => exact mem_singleton.mpr (List.cons.inj hview).1
      | cons u us => exact (List.cons.inj hview).1 ▸ mem_cons_self
    exact fun d hd => ⟨t, ht, (hreports d hd).span_eq⟩
  · intro d hd
    obtain ⟨u, hu, hd⟩ := hpasses.reports d hd
    exact ⟨u, hu, hd.span_eq⟩

end State.GivesUp

end Parser

namespace Declarations

open Quantity.Parser

/-- **The states that the reading of a text goes through**, with what was found by then. -/
inductive Reached (source : Option String) (text : String) : State → Declarations → Prop
  | start {t : Token} {ts : List Token} : Token.significant text = t :: ts →
    Reached source text (startState source t ts) {}
  | step {s : State} {found : Declarations} : Reached source text s found → s.kind ≠ .eof →
    Reached source text (step s found).1 (step s found).2

section Reached

variable {source : Option String} {text : String} {s : State} {found : Declarations}

variable (h : Reached source text s found)

include h

theorem Reached.tokens : s.tokens <:+ Token.significant text := by
  induction h with
  | start htokens => exact htokens ▸ suffix_refl _
  | step _ _ ih => exact (later_step _ _).tokens.trans ih

theorem Reached.lexReports :
    s.lexReports = (Token.significant text).filterMap (lexReport? source) := by
  induction h with
  | start htokens => rw [startState, lexReports_view, htokens, filter_nil, nil_append]
  | step _ _ ih => rw [(later_step _ _).lexReports, ih]

theorem Reached.endsIn : s.EndsIn .eof := by
  induction h with
  | start htokens =>
    obtain ⟨u, us, hus, hends⟩ := Token.exists_significant_eq text
    obtain ⟨rfl, rfl⟩ := List.cons.inj (htokens.symm.trans hus)
    exact hends
  | step _ _ ih => exact ih.later (later_step _ _)

theorem Reached.declarations (hfuel : s.rest.length < fuel) :
    Reached source text (declarations fuel s found).1 (declarations fuel s found).2 ∧
      (Parser.declarations fuel s found).1.kind = .eof := by
  induction fuel generalizing s found with
  | zero => omega
  | succ fuel ih =>
    by_cases heof : s.kind = .eof
    · rw [Parser.declarations, if_pos heof]
      exact ⟨h, heof⟩
    · have hlength := length_step h.endsIn heof found
      rw [declarations_succ heof]
      exact ih (.step h heof) (by omega)

theorem Reached.exists_fuel : ∃ fuel, s.rest.length < fuel ∧
    read source text =
      ((Parser.declarations fuel s found).2, (Parser.declarations fuel s found).1.diagnostics) := by
  induction h with
  | start htokens =>
    exact ⟨_, Nat.lt_succ_self _, read_eq source htokens (Prod.eta _).symm⟩
  | @step s found h hne ih =>
    obtain ⟨_ | fuel, hfuel, hread⟩ := ih
    · omega
    · have hlength := length_step h.endsIn hne found
      rw [declarations_succ hne] at hread
      exact ⟨fuel, by omega, hread⟩

theorem Reached.isPrefix : s.diagnostics.items <+: (read source text).2.items := by
  obtain ⟨fuel, -, hread⟩ := h.exists_fuel
  obtain ⟨taken, new, hpasses⟩ := (later_declarations fuel s found).passes
  rw [hread]
  exact ⟨new, hpasses.items.symm⟩

omit h

theorem exists_reached_eof (source : Option String) (text : String) : ∃ s,
    Reached source text s (read source text).1 ∧ s.kind = .eof ∧ s.rest = [] ∧
      s.diagnostics = (read source text).2 := by
  obtain ⟨t, ts, htokens, -⟩ := Token.exists_significant_eq text
  have hstart : Reached source text (startState source t ts) {} := .start htokens
  obtain ⟨hreached, heof⟩ := hstart.declarations (Nat.lt_succ_self ts.length)
  have hread := read_eq source htokens (Prod.eta _).symm
  obtain ⟨taken, hsplit⟩ := hreached.tokens
  refine ⟨_, hread ▸ hreached, heof, Token.eq_nil_of_significant hsplit.symm heof, ?_⟩
  rw [hread]

theorem filter_lex (source : Option String) (text : String) :
    (read source text).2.items.filter (·.stage = .lex) =
      (Token.all text).filterMap (lexReport? source) := by
  obtain ⟨s, hreached, -, hrest, hread⟩ := exists_reached_eof source text
  have hsignificant : (Token.significant text).filterMap (lexReport? source) =
      (Token.all text).filterMap (lexReport? source) := by
    rw [Token.significant, filterMap_filter]
    refine filterMap_congr fun t _ => ?_
    split_ifs with htrivia
    · rfl
    · refine (lexReport?_eq_none fun e he => htrivia ?_).symm
      rw [he]
      rfl
  have hlast : s.lexReports = (read source text).2.items.filter (·.stage = .lex) := by
    rw [State.lexReports, hrest, hread]
    exact append_nil _
  rw [← hlast, ← hsignificant]
  exact hreached.lexReports

theorem pairwise_significant (text : String) : (Token.significant text).Pairwise Token.Precedes :=
  (Token.pairwise_allFrom .start text.toList).1.filter _

theorem ordered_of_mem (h : t ∈ Token.significant text) : t.span.start ≤ t.span.stop :=
  ((Token.pairwise_allFrom .start text.toList).2 t (mem_of_mem_filter h)).2

theorem span_ne_of_error (hd : d ∈ (read source text).2.items) (hstage : d.stage = .parse)
    (ht : t ∈ Token.all text) (he : t.kind = .error e) : d.span ≠ some t.span := by
  obtain ⟨u, hu, hreport⟩ := exists_reportedAt hd
  have hapart : (Token.significant text).Pairwise fun t u => t.span.start ≠ u.span.start :=
    (pairwise_significant text).imp fun h => Nat.ne_of_lt (Nat.lt_of_lt_of_le h.1 h.2)
  cases hreport with
  | malformed => cases hstage
  | fault message hkind =>
    intro hspan
    have hne : u ≠ t := by
      rintro rfl
      exact hkind e he
    have hsymm : Std.Symm fun t u : Token => t.span.start ≠ u.span.start := ⟨fun _ _ => Ne.symm⟩
    exact hapart.forall hu (Token.mem_significant_of_error ht he) hne
      (congrArg Span.start (Option.some.inj hspan))

theorem exists_between (h : Reached source text s found) (hgives : s.GivesUp) :
    ∃ new, (step s found).1.diagnostics.items = s.diagnostics.items ++ new ∧
      ∃ d ∈ new, ∃ span, d.span = some span ∧ s.current.span.stop ≤ span.start ∧
        span.start ≤ (step s found).1.current.span.start ∧
        span.stop ≤ (step s found).1.current.span.stop := by
  obtain ⟨taken, new, hrest, hitems, hnew, hreports⟩ := hgives.exists_reports h.endsIn found
  obtain ⟨d, hd⟩ := exists_mem_of_ne_nil new hnew
  obtain ⟨t, ht, hspan⟩ := hreports d hd
  refine ⟨new, hitems, d, hd, t.span, hspan, ?_⟩
  have hpairwise := (pairwise_significant text).sublist h.tokens.sublist
  rw [State.tokens, hrest, State.tokens, append_cons, pairwise_cons,
    pairwise_append] at hpairwise
  obtain ⟨hbehind, hbefore, -⟩ := hpairwise
  refine ⟨(hbehind t (mem_append_left _ ht)).2, ?_⟩
  rcases mem_append.mp ht with ht | ht
  · obtain ⟨hlt, hle⟩ := (pairwise_append.mp hbefore).2.2 t ht _ (mem_singleton.mpr rfl)
    have hsuffix := (later_step s found).tokens.trans h.tokens
    have hresume := ordered_of_mem (hsuffix.subset mem_cons_self)
    omega
  · rw [mem_singleton.mp ht]
    exact ⟨Nat.le_refl _, Nat.le_refl _⟩

end Reached

/-- **Reading ends, and reports what it must.** -/
theorem read_recovers (source : Option String) (text : String) :
    -- every loop ends
    (Ends tags ∧ ∀ count ≤ maxNesting,
      Ends (fun fuel => (alternativesWith dimension fuel).run count) ∧
      ∀ nesting left, maxNesting ≤ count + nesting →
        Ends (fun fuel =>
          (chainFrom (dimensionTerm nesting) productOperator? fuel left).run count) ∧
        Ends (fun fuel =>
          (chainFrom (numeralFactor nesting) productOperator? fuel left).run count) ∧
        Ends (fun fuel => (chainFrom (chain (numeralFactor nesting) productOperator?) sumOperator?
          fuel left).run count)) ∧
    -- every step takes tokens, and the last one takes the last ones
    (∀ s found, Reached source text s found → s.kind ≠ .eof →
      ∃ taken, taken ≠ [] ∧ s.tokens = taken ++ (step s found).1.tokens) ∧
    (∃ s, Reached source text s (read source text).1 ∧ s.kind = .eof ∧ s.rest = [] ∧
      s.diagnostics = (read source text).2) ∧
    -- malformed tokens are reported once, and for no other reason
    (read source text).2.items.filter (·.stage = .lex) =
      (Token.all text).filterMap (lexReport? source) ∧
    (∀ d ∈ (read source text).2.items, d.stage = .parse →
      ∀ t ∈ Token.all text, ∀ e, t.kind = .error e → d.span ≠ some t.span) ∧
    -- declarations that are given up are reported between the keyword and where reading goes on
    ∀ s found, Reached source text s found → s.GivesUp →
      ∃ new, (step s found).1.diagnostics.items = s.diagnostics.items ++ new ∧
        (step s found).1.diagnostics.items <+: (read source text).2.items ∧
        ∃ d ∈ new, ∃ span, d.span = some span ∧ s.current.span.stop ≤ span.start ∧
          span.start ≤ (step s found).1.current.span.start ∧
          span.stop ≤ (step s found).1.current.span.stop := by
  refine ⟨⟨ends_tags, fun count => ends_counted⟩, fun s found h hne => ?_,
    exists_reached_eof source text, filter_lex source text, ?_, fun s found h hgives => ?_⟩
  · obtain ⟨taken, new, hpasses⟩ := (later_step s found).passes
    refine ⟨taken, ?_, hpasses.tokens⟩
    rintro rfl
    have hsame : s.rest = (step s found).1.rest := (List.cons.inj hpasses.tokens).2
    exact Nat.lt_irrefl _ (hsame ▸ length_step h.endsIn hne found)
  · exact fun d hd hstage t ht e he => span_ne_of_error hd hstage ht he
  · obtain ⟨new, hnew, hbetween⟩ := exists_between h hgives
    exact ⟨new, hnew, (Reached.step h hgives.ne_eof).isPrefix, hbetween⟩

/-- Two units and a scale, each of them spoiled, and two tokens malformed. -/
def spoiled : String := "unit Yard $ 3 Foot unit 1e; scale"

/-- The keyword of the first unit is in view. -/
def spoiledStart : State :=
  startState none ⟨.identifier false, "unit", ⟨0, 4, 1, 1, 1, 4⟩⟩ (Token.significant spoiled).tail

/-- The malformed tokens are reported, and so is the first unit, in front of the second one. -/
theorem read_recovers_spoiled :
    (read none spoiled).2.items.filter (·.stage = .lex) =
        [.errorAt .lex ⟨10, 11, 1, 11, 1, 11⟩ "Unexpected character '$'",
          .errorAt .lex ⟨24, 26, 1, 25, 1, 26⟩ "Invalid numeral: expected exponent digits"] ∧
      Reached none spoiled spoiledStart {} ∧ spoiledStart.GivesUp ∧
      ∃ d ∈ (step spoiledStart {}).1.diagnostics.items, ∃ span, d.span = some span ∧
        4 ≤ span.start ∧ span.start ≤ 19 := by
  have hreached : Reached none spoiled spoiledStart {} := .start (by decide +kernel)
  have hgives : spoiledStart.GivesUp := .inl ⟨by decide +kernel, by decide +kernel⟩
  obtain ⟨-, -, -, hlex, -, hgiven⟩ := read_recovers none spoiled
  obtain ⟨new, hnew, -, d, hd, span, hspan, hkeyword, hresume, -⟩ := hgiven _ _ hreached hgives
  have hnext : (step spoiledStart {}).1.current.span.start = 19 := by decide +kernel
  refine ⟨hlex.trans (by decide +kernel), hreached, hgives, d, ?_, span, hspan, hkeyword,
    hnext ▸ hresume⟩
  exact hnew ▸ mem_append_right _ hd

end Declarations

end Quantity
