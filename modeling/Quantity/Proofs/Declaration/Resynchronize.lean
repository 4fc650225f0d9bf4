import Quantity.Proofs.Declaration.Context

/-!
# Semicolons end everything

A step takes a declaration, or gives one up and skips the rest of it, and never goes beyond a
semicolon. So where it stops does not depend on what follows (`exists_steps`), and neither does where
a run of steps through a text that ends in a semicolon stops (`exists_runs`). What follows is read as
if it were the only text (`declarations_state`), with other places. In whole: `read_append`.
-/

namespace Quantity.Parser

variable {α : Type} {s : State}

def Context.none : Context := ⟨id, [], [], fun _ _ => rfl⟩

theorem Context.state_none (s : State) : Context.none.state s = s := by
  simp [Context.state, Context.diagnostics, Context.none]

/-- A context of which there is only what follows. -/
def Context.followed (t : Token) (ts : List Token) : Context := ⟨id, [], t :: ts, fun _ _ => rfl⟩

theorem Context.state_followed (t : Token) (ts : List Token) (s : State) :
    (followed t ts).state s = { s with rest := s.rest ++ t :: ts } := by
  simp [Context.state, Context.diagnostics, Context.followed]

/-! ### One step -/

/-- Go on past the semicolon in view, or stay. -/
def State.leave (past : Bool) (s : State) : State := if past then s.advance else s

theorem state_leave {k : Context} (h : past = true → s.rest ≠ [] ∨ k.behind = []) :
    (k.state s).leave past = k.state (s.leave past) := by
  cases past with
  | false => rfl
  | true => exact state_advance (h rfl)

/-- Where reading may stop: later on, and past a semicolon or not. -/
structure Stops (past : Bool) (s s' : State) : Prop where
  later : Later s s'
  kind : past = true → s'.kind = .semicolon

theorem Stops.later_leave (h : Stops past s s') : Later s (s'.leave past) := by
  cases past with
  | false => exact h.later
  | true => exact h.later.trans (later_advance s')

/-- What is given up is skipped up to the same place whatever the context. -/
theorem exists_synchronize (s : State) : ∃ past s', Stops past s s' ∧
    (s.kind ≠ .semicolon → s.current.startsDeclaration = false →
      s'.rest.length ≤ s.rest.length - 1) ∧
    ∀ k : Context, k.Guards s → synchronize (k.state s) = (k.state s').leave past := by
  fun_induction synchronize s with
  | case1 s hkind =>
    refine ⟨true, s, ⟨.refl s, fun _ => hkind⟩, fun hne => absurd hkind hne, fun k _ => ?_⟩
    rw [synchronize, if_pos (by exact hkind)]
    rfl
  | case2 s hkind hstarts =>
    refine ⟨false, s, ⟨.refl s, nofun⟩, fun _ hnot => ?_, fun k _ => ?_⟩
    · rw [hstarts] at hnot
      cases hnot
    · rw [synchronize, if_neg (by exact hkind), if_pos (by exact hstarts)]
      rfl
  | case3 s hkind hstarts hrest =>
    refine ⟨false, s, ⟨.refl s, nofun⟩, fun _ _ => by omega, fun k hk => ?_⟩
    have hnil := List.length_eq_zero_iff.mp hrest
    have hbehind : k.behind = [] := by
      by_contra hbehind
      exact hkind (hk.kind_eq hnil hbehind)
    have hlength : (k.state s).rest.length = 0 := by simp [Context.state, hnil, hbehind]
    rw [synchronize, if_neg (by exact hkind), if_neg (by exact hstarts), if_pos hlength]
    rfl
  | case4 s hkind hstarts hrest ih =>
    obtain ⟨past, s', ⟨hlater, hsemicolon⟩, -, heq⟩ := ih
    have hlength := hlater.length_le
    rw [length_advance] at hlength
    refine ⟨past, s', ⟨(later_advance s).trans hlater, hsemicolon⟩, fun _ _ => hlength,
      fun k hk => ?_⟩
    have hne : (k.state s).rest.length ≠ 0 := by
      simp only [Context.state, List.length_append, List.length_map]
      omega
    rw [synchronize, if_neg (by exact hkind), if_neg (by exact hstarts), if_neg hne,
      hk.state_advance (.inl hkind)]
    exact heq k (hk.later (later_advance s))

theorem later_synchronize (s : State) : Later s (synchronize s) := by
  obtain ⟨past, s', hstops, -, heq⟩ := exists_synchronize s
  have hs := heq .none (.inl rfl)
  rw [Context.state_none, Context.state_none] at hs
  rw [hs]
  exact hstops.later_leave

/-- A token that is not expected is reported and stays in view, whatever the context. -/
theorem exists_unexpected (what : String) (s : State) : ∃ ds,
    Later s { s with diagnostics := ds } ∧ ∀ k : Context, k.Guards s →
      (unexpected what : Parse α) (k.state s) = (none, k.state { s with diagnostics := ds }) := by
  have hnone : ∃ ds, (unexpected what : Parse α) s = (none, { s with diagnostics := ds }) := by
    unfold unexpected
    split
    · exact ⟨s.diagnostics, rfl⟩
    · exact ⟨_, rfl⟩
  obtain ⟨ds, hds⟩ := hnone
  have hagrees (k : Context) (hk : k.Guards s) :
      Agree k id (unexpected what : Parse α) (unexpected what) s := agrees_unexpected what s hk
  refine ⟨ds, ?_, fun k hk => ?_⟩
  · have hlater := (hagrees .none (.inl rfl)).later
    rwa [hds] at hlater
  · have heq := (hagrees k hk).eq
    rwa [hds] at heq

/-- A semicolon is taken, or another token is reported and stays in view, whatever the context. -/
theorem exists_semicolon (s : State) : ∃ past s', Stops past s s' ∧ ∀ k : Context, k.Guards s →
    expect .semicolon (k.state s) =
      (if past then some (s.current.move k.place) else none, (k.state s').leave past) := by
  have hexpect (k : Context) : expect .semicolon (k.state s) =
      if s.kind = .semicolon then take (k.state s)
      else unexpected TokenKind.semicolon.describe (k.state s) :=
    apply_ite (fun x : Parse Token => x (k.state s)) _ _ _
  by_cases hkind : s.kind = .semicolon
  · refine ⟨true, s, ⟨.refl s, fun _ => hkind⟩, fun k _ => ?_⟩
    rw [hexpect, if_pos hkind]
    rfl
  · obtain ⟨ds, hds, hunexpected⟩ :=
      exists_unexpected (α := Token) TokenKind.semicolon.describe s
    refine ⟨false, _, ⟨hds, nofun⟩, fun k hk => ?_⟩
    rw [hexpect, if_neg hkind]
    exact hunexpected k hk

/-- **A reader of declarations**: they have a keyword, clauses that may stand elsewhere, and a
semicolon. -/
structure IsDeclaration (x : Parse α) (move : (Span → Span) → α → α) (clauses : Token → Parse α)
    (close : α → Token → α) : Prop where
  eq : x = take >>= fun start => clauses start >>= fun a =>
    expect .semicolon >>= fun stop => pure (close a stop)
  agrees : ∀ (k : Context) start,
    Agrees k (move k.place) (clauses start) (clauses (start.move k.place))
  move_close : ∀ (k : Context) a stop,
    move k.place (close a stop) = close (move k.place a) (stop.move k.place)

theorem isDeclaration_unit : IsDeclaration unitDeclaration UnitDecl.move unitClauses
    fun u stop => { u with span := u.span.upTo stop.span } where
  eq := unitDeclaration_eq
  agrees _ := agrees_unitClauses
  move_close k u stop := by simp [UnitDecl.move, k.upTo, Token.move]

theorem isDeclaration_scale : IsDeclaration scaleDeclaration ScaleDecl.move scaleClauses
    fun d stop => { d with span := d.span.upTo stop.span } where
  eq := scaleDeclaration_eq
  agrees _ := agrees_scaleClauses
  move_close k d stop := by simp [ScaleDecl.move, k.upTo, Token.move]

/-- **A step from `s` stops at `s'`** or past the semicolon there, with new declarations, whatever the
context. It takes a token, unless it stops past a semicolon. -/
structure Steps (s : State) (past : Bool) (s' : State) (new : Declarations) : Prop where
  stops : Stops past s s'
  progress : past = true ∨ s.kind ≠ .semicolon ∧ s'.rest.length ≤ s.rest.length - 1
  eq : ∀ k : Context, k.Guards s → ∀ found,
    step (k.state s) found = ((k.state s').leave past, found.append (new.move k.place))

namespace IsDeclaration

variable {x : Parse α} {move : (Span → Span) → α → α} {clauses : Token → Parse α}
  {close : α → Token → α}

/-- A declaration is read the same whatever the context: it ends with its semicolon, or it is given
up before one. -/
theorem exists_read (h : IsDeclaration x move clauses close) (hkind : s.kind ≠ .semicolon) :
    ∃ (a : Option α) (s' : State), Stops a.isSome s.advance s' ∧ ∀ k : Context, k.Guards s →
      x (k.state s) = (a.map (move k.place), (k.state s').leave a.isSome) := by
  have hx (k : Context) (hk : k.Guards s) : x (k.state s) =
      (clauses (s.current.move k.place) >>= fun a =>
        expect .semicolon >>= fun stop => pure (close a stop)) (k.state s.advance) := by
    rw [h.eq, ← hk.state_advance (.inl hkind)]
    rfl
  have hlater := (h.agrees .none s.current s.advance (.inl rfl)).later
  have hclauses (k : Context) (hk : k.Guards s) :=
    (h.agrees k s.current s.advance (hk.later (later_advance s))).eq
  cases hread : clauses s.current s.advance with
  | mk a s' =>
    rw [hread] at hlater
    simp only [hread] at hclauses
    cases a with
    | none =>
      refine ⟨none, s', ⟨hlater, nofun⟩, fun k hk => ?_⟩
      rw [hx k hk, bind_of_none (hclauses k hk)]
      rfl
    | some a =>
      obtain ⟨past, s'', ⟨hlater', hsemicolon⟩, hexpect⟩ := exists_semicolon s'
      have hguards {k : Context} (hk : k.Guards s) : k.Guards s' :=
        (hk.later (later_advance s)).later hlater
      cases past with
      | false =>
        refine ⟨none, s'', ⟨hlater.trans hlater', nofun⟩, fun k hk => ?_⟩
        rw [hx k hk, bind_of_some (hclauses k hk), bind_of_none (hexpect k (hguards hk))]
        rfl
      | true =>
        refine ⟨some (close a s'.current), s'', ⟨hlater.trans hlater', hsemicolon⟩, fun k hk => ?_⟩
        rw [hx k hk, bind_of_some (hclauses k hk), bind_of_some (hexpect k (hguards hk)),
          Option.map_some, h.move_close]
        rfl

/-- A step takes the declaration, or gives it up and skips the rest of it. -/
theorem exists_steps (h : IsDeclaration x move clauses close) (hkind : s.kind ≠ .semicolon)
    (put : Declarations → α → Declarations)
    (hput : ∀ found f a, put found (move f a) = found.append ((put {} a).move f))
    (hstep : ∀ (k : Context) found, step (k.state s) found = match x (k.state s) with
      | (some a, t) => (t, put found a)
      | (none, t) => (synchronize t, found)) :
    ∃ past s' new, Steps s past s' new := by
  -- the keyword is taken
  have hsteps {past : Bool} {s' : State} {new : Declarations} (hstops : Stops past s.advance s')
      (heq : ∀ k : Context, k.Guards s → ∀ found,
        step (k.state s) found = ((k.state s').leave past, found.append (new.move k.place))) :
      Steps s past s' new := by
    have hlength := hstops.later.length_le
    rw [length_advance] at hlength
    exact ⟨⟨(later_advance s).trans hstops.later, hstops.kind⟩, .inr ⟨hkind, hlength⟩, heq⟩
  obtain ⟨a, s', hstops, hread⟩ := h.exists_read hkind
  cases a with
  | some a =>
    refine ⟨true, s', put {} a, hsteps hstops fun k hk found => ?_⟩
    rw [hstep, hread k hk, ← hput]
    rfl
  | none =>
    obtain ⟨past, s'', ⟨hlater, hsemicolon⟩, -, hskip⟩ := exists_synchronize s'
    have hstops' : Stops past s.advance s'' := ⟨hstops.later.trans hlater, hsemicolon⟩
    refine ⟨past, s'', {}, hsteps hstops' fun k hk found => ?_⟩
    have hguards := (hk.later (later_advance s)).later hstops.later
    rw [hstep, hread k hk, ← hskip k hguards]
    exact congrArg (_, ·) found.append_empty.symm

end IsDeclaration

/-- **Every step stops at the same place whatever the context.** -/
theorem exists_steps (s : State) : ∃ past s' new, Steps s past s' new := by
  by_cases hunit : s.current.isKeyword .unit = true
  · refine isDeclaration_unit.exists_steps (kind_ne (kind_of_isKeyword hunit) nofun)
      (fun found u => { found with units := found.units ++ [u] }) ?_ fun k found => ?_
    · simp [Declarations.append, Declarations.move]
    · rw [step, if_pos (by exact hunit)]
      rcases unitDeclaration (k.state s) with ⟨_ | u, t⟩ <;> rfl
  by_cases hscale : s.current.isKeyword .scale = true
  · refine isDeclaration_scale.exists_steps (kind_ne (kind_of_isKeyword hscale) nofun)
      (fun found d => { found with scales := found.scales ++ [d] }) ?_ fun k found => ?_
    · simp [Declarations.append, Declarations.move]
    · rw [step, if_neg (by exact hunit), if_pos (by exact hscale)]
      rcases scaleDeclaration (k.state s) with ⟨_ | d, t⟩ <;> rfl
  by_cases hkind : s.kind = .semicolon
  · refine ⟨true, s, {}, ⟨.refl s, fun _ => hkind⟩, .inl rfl, fun k _ found => ?_⟩
    rw [step, if_neg (by exact hunit), if_neg (by exact hscale), if_pos (by exact hkind)]
    exact congrArg (_, ·) found.append_empty.symm
  · obtain ⟨ds, hds, hunexpected⟩ := exists_unexpected (α := Unit) "'unit' or 'scale'" s
    obtain ⟨past, s', ⟨hlater, hsemicolon⟩, hprogress, heq⟩ :=
      exists_synchronize { s with diagnostics := ds }
    have hstarts : s.current.startsDeclaration = false := by
      simp [Token.startsDeclaration, hunit, hscale]
    refine ⟨past, s', {}, ⟨hds.trans hlater, hsemicolon⟩, .inr ⟨hkind, hprogress hkind hstarts⟩,
      fun k hk found => ?_⟩
    rw [step, if_neg (by exact hunit), if_neg (by exact hscale), if_neg (by exact hkind),
      hunexpected k hk, heq k (hk.later hds)]
    exact congrArg (_, ·) found.append_empty.symm

/-! ### Many steps -/

namespace Steps

variable {past : Bool} {s' : State} {new : Declarations}

theorem step_eq (h : Steps s past s' new) (found : Declarations) :
    step s found = (s'.leave past, found.append new) := by
  have heq := h.eq .none (.inl rfl) found
  rw [Context.state_none, Context.state_none] at heq
  rw [heq]
  exact congrArg (fun new => (_, found.append new)) new.move_id

theorem declarations_state (h : Steps s past s' new) {k : Context} (hk : k.Guards s)
    (hne : s.kind ≠ .eof) (fuel : Nat) (found : Declarations) :
    declarations (fuel + 1) (k.state s) found =
      declarations fuel ((k.state s').leave past) (found.append (new.move k.place)) := by
  rw [declarations, if_neg (by exact hne), h.eq k hk]

/-- There are fewer tokens after a step, unless there is only one left. -/
theorem shorter (h : Steps s past s' new) (hstay : past = false → s.rest ≠ [])
    (hpast : past = true → s'.rest ≠ []) : (s'.leave past).rest.length < s.rest.length := by
  obtain ⟨⟨hlater, -⟩, hprogress, -⟩ := h
  cases past with
  | false =>
    have hpos := List.length_pos_iff.mpr (hstay rfl)
    obtain ⟨-, hlength⟩ := hprogress.resolve_left nofun
    show s'.rest.length < _
    omega
  | true =>
    have hpos := List.length_pos_iff.mpr (hpast rfl)
    have hlength := hlater.length_le
    show s'.advance.rest.length < _
    rw [length_advance]
    omega

end Steps

/-- **The steps from `s` end where something follows**, whatever it is. -/
def Runs (s : State) (n : Nat) (new : Declarations) (ds : Diagnostics) : Prop :=
  ∀ t ts fuel found, declarations (n + fuel) ((Context.followed t ts).state s) found =
    declarations fuel ⟨t, ts, reportLexError ds t⟩ (found.append new)

section Runs

variable {past : Bool} {s' : State} {new new' : Declarations} {n : Nat} {ds : Diagnostics}

theorem Steps.declarations_followed (h : Steps s past s' new) (hends : s.EndsIn .semicolon)
    (hne : s.kind ≠ .eof) (t : Token) (ts : List Token) (fuel : Nat) (found : Declarations) :
    declarations (fuel + 1) ((Context.followed t ts).state s) found =
      declarations fuel (((Context.followed t ts).state s').leave past) (found.append new) := by
  rw [h.declarations_state (.inr hends) hne]
  exact congrArg (fun new => declarations _ _ (found.append new)) new.move_id

theorem Steps.runs_last (h : Steps s true s' new) (hends : s.EndsIn .semicolon)
    (hne : s.kind ≠ .eof) (hrest : s'.rest = []) : Runs s 1 new s'.diagnostics := by
  intro t ts fuel found
  have hleave : ((Context.followed t ts).state s').leave true =
      ⟨t, ts, reportLexError s'.diagnostics t⟩ := by
    rw [Context.state_followed, hrest]
    rfl
  rw [Nat.add_comm, h.declarations_followed hends hne, hleave]

theorem Steps.runs_cons (h : Steps s past s' new) (hends : s.EndsIn .semicolon)
    (hne : s.kind ≠ .eof) (hrest : past = true → s'.rest ≠ [])
    (hruns : Runs (s'.leave past) n new' ds) : Runs s (n + 1) (new.append new') ds := by
  intro t ts fuel found
  rw [Nat.add_right_comm, h.declarations_followed hends hne,
    state_leave fun hpast => .inl (hrest hpast), hruns, Declarations.append_assoc]

/-- **A text that ends in a semicolon is read the same whatever follows.** -/
theorem exists_runs (hends : s.EndsIn .semicolon) (heof : ∀ t ∈ s.tokens, t.kind ≠ .eof) :
    ∃ n new ds, n ≤ s.rest.length + 1 ∧ Diagnostics.source ds = s.diagnostics.source ∧
      Runs s n new ds := by
  induction hn : s.rest.length using Nat.strongRecOn generalizing s with
  | _ m ih =>
    subst hn
    obtain ⟨past, s', new, hsteps⟩ := exists_steps s
    have hne : s.kind ≠ .eof := heof _ List.mem_cons_self
    by_cases hlast : past = true ∧ s'.rest = []
    · obtain ⟨rfl, hrest⟩ := hlast
      refine ⟨1, new, s'.diagnostics, by omega, hsteps.stops.later.source, ?_⟩
      exact hsteps.runs_last hends hne hrest
    · have hpast : past = true → s'.rest ≠ [] := fun hpast hrest => hlast ⟨hpast, hrest⟩
      have hstay : past = false → s.rest ≠ [] := by
        rintro rfl hnil
        exact (hsteps.progress.resolve_left nofun).1 (hends.kind_eq hnil)
      have hlength := hsteps.shorter hstay hpast
      have hlater := hsteps.stops.later_leave
      obtain ⟨n, new', ds, hle, hds, hruns⟩ := ih _ hlength (hends.later hlater)
        (fun t ht => heof t (hlater.tokens.subset ht)) rfl
      refine ⟨n + 1, new.append new', ds, by omega, hds.trans hlater.source, ?_⟩
      exact hsteps.runs_cons hends hne hpast hruns

end Runs

/-- **Declarations are read the same wherever they stand**, if nothing follows. -/
theorem declarations_state {k : Context} (hk : k.behind = []) (fuel : Nat) (s : State)
    (before found : Declarations) :
    declarations fuel (k.state s) (before.append (found.move k.place)) =
      (k.state (declarations fuel s found).1,
        before.append ((declarations fuel s found).2.move k.place)) := by
  induction fuel generalizing s found with
  | zero => rfl
  | succ fuel ih =>
    by_cases heof : s.kind = .eof
    · rw [declarations, declarations, if_pos heof, if_pos (by exact heof)]
    · obtain ⟨past, s', new, hsteps⟩ := exists_steps s
      rw [hsteps.declarations_state (.inl hk) heof, state_leave fun _ => .inr hk,
        Declarations.append_assoc, ← Declarations.move_append, ih, declarations, if_neg heof,
        hsteps.step_eq]

theorem later_step (s : State) (found : Declarations) : Later s (step s found).1 := by
  obtain ⟨past, s', new, hsteps⟩ := exists_steps s
  rw [hsteps.step_eq]
  exact hsteps.stops.later_leave

theorem length_step (hends : s.EndsIn .eof) (hne : s.kind ≠ .eof) (found : Declarations) :
    (step s found).1.rest.length < s.rest.length := by
  obtain ⟨past, s', new, hsteps⟩ := exists_steps s
  rw [hsteps.step_eq]
  refine hsteps.shorter (fun _ hnil => hne (hends.kind_eq hnil)) fun hpast hnil => ?_
  have hend := (hends.later hsteps.stops.later).kind_eq hnil
  rw [hsteps.stops.kind hpast] at hend
  cases hend

theorem declarations_succ (hne : s.kind ≠ .eof) (fuel : Nat) (found : Declarations) :
    declarations (fuel + 1) s found = declarations fuel (step s found).1 (step s found).2 := by
  rw [declarations, if_neg hne]

theorem declarations_add (hends : s.EndsIn .eof) (hfuel : s.rest.length < fuel) (more : Nat)
    (found : Declarations) : declarations (fuel + more) s found = declarations fuel s found := by
  induction fuel generalizing s found with
  | zero => omega
  | succ fuel ih =>
    rw [Nat.add_right_comm]
    by_cases heof : s.kind = .eof
    · rw [declarations, declarations, if_pos heof, if_pos heof]
    · have hlength := length_step hends heof found
      rw [declarations_succ heof, declarations_succ heof]
      exact ih (hends.later (later_step s found)) (by omega) _

theorem later_declarations (fuel : Nat) (s : State) (found : Declarations) :
    Later s (declarations fuel s found).1 := by
  induction fuel generalizing s found with
  | zero => exact .refl s
  | succ fuel ih =>
    rw [declarations]
    split_ifs
    · exact .refl s
    · exact (later_step s found).trans (ih _ _)

end Quantity.Parser

namespace Quantity.Declarations

open Quantity.Parser

variable {source : Option String} {text : String} {t : Token} {ts : List Token}

def startState (source : Option String) (t : Token) (ts : List Token) : State :=
  ⟨t, ts, reportLexError { source } t⟩

theorem startState_append (u : Token) (us : List Token) :
    startState source t (ts ++ u :: us) =
      (Context.followed u us).state (startState source t ts) := by
  rw [Context.state_followed]
  rfl

theorem read_eq (source : Option String) (h : Token.significant text = t :: ts)
    (hread : declarations (ts.length + 1) (startState source t ts) {} = (s, found)) :
    read source text = (found, s.diagnostics) := by
  unfold read
  rw [h]
  exact congrArg (fun r : State × Declarations => (r.2, r.1.diagnostics)) hread

section Runs

variable {n : Nat} {new : Declarations} {ds : Diagnostics}

theorem declarations_of_runs (hruns : Runs (startState source t ts) n new ds)
    (hn : n ≤ ts.length + 1) (he : e.kind = .eof) :
    declarations ((ts ++ [e]).length + 1) (startState source t (ts ++ [e])) {} =
      (⟨e, [], ds⟩, new) := by
  have hfuel : (ts ++ [e]).length + 1 = n + (ts.length + 1 - n + 1) := by
    rw [List.length_append, List.length_singleton]
    omega
  have hds : reportLexError ds e = ds := by rw [reportLexError, he]
  rw [hfuel, startState_append, hruns, declarations, if_pos (by exact he), hds, empty_append]

/-- What a text that ends in a semicolon gives together with the text that follows it. -/
theorem declarations_of_runs_append (hruns : Runs (startState source t ts) n new ds)
    (hn : n ≤ ts.length + 1) (hds : ds.source = source) {k : Context}
    (hbefore : k.before = ds.items) (hbehind : k.behind = [])
    (hends : (startState source u us).EndsIn .eof) :
    declarations ((ts ++ (u :: us).map (Token.move k.place)).length + 1)
        (startState source t (ts ++ (u :: us).map (Token.move k.place))) {} =
      (k.state (declarations (us.length + 1) (startState source u us) {}).1,
        new.append ((declarations (us.length + 1) (startState source u us) {}).2.move k.place)) := by
  have hfuel : (ts ++ (u :: us).map (Token.move k.place)).length + 1 =
      n + (us.length + 1 + (ts.length + 1 - n)) := by
    rw [List.length_append, List.length_map, List.length_cons]
    omega
  have hstart : (⟨u.move k.place, us.map (Token.move k.place),
      reportLexError ds (u.move k.place)⟩ : State) = k.state (startState source u us) := by
    have hreported : k.diagnostics { source } = ds := by
      rw [Context.diagnostics, hbefore, ← hds]
      simp
    rw [startState, Context.state, k.diagnostics_reportLexError, hreported, hbehind,
      List.append_nil]
  have henough := declarations_add hends (Nat.lt_succ_self us.length) (ts.length + 1 - n) {}
  have hnew : append {} new = new.append (move k.place {}) := (append_empty new).symm
  rw [hfuel, List.map_cons, startState_append, hruns, hstart, hnew, declarations_state hbehind]
  exact congrArg (fun r => (k.state r.1, new.append (move k.place r.2))) henough

end Runs

/-- **A semicolon ends everything**: whatever a text that ends in one is like, what follows it is read
as if it were alone, but for the places. First come the declarations and the reports of the one text,
then those of the other. -/
theorem read_append {a : String} (h : Token.EndsInSemicolon a) (source : Option String) (b : String) :
    read source (a ++ b) =
      ((read source a).1.append
        ((read source b).1.move (Span.behind (Position.start.after a.toList))),
      { source,
        items := (read source a).2.items ++
          (read source b).2.items.map
            (Diagnostic.move (Span.behind (Position.start.after a.toList))) }) := by
  obtain ⟨t, ts, e, hends, heof, he, ha, hab⟩ := Token.significant_append h b
  obtain ⟨u, us, hb, hends'⟩ := Token.exists_significant_eq b
  rw [hb] at hab
  obtain ⟨n, new, ds, hn, hds, hruns⟩ := exists_runs (s := startState source t ts) hends heof
  have hds : ds.source = source := hds.trans (source_reportLexError _ _)
  let k : Context := ⟨Span.behind (Position.start.after a.toList), ds.items, [], Span.behind_upTo _⟩
  have hboth := declarations_of_runs_append hruns hn hds (k := k) rfl rfl hends'
  rw [read_eq source ha (declarations_of_runs hruns hn he), read_eq source hb rfl,
    read_eq source hab hboth]
  have hsource := (later_declarations (us.length + 1) (startState source u us) {}).source
  rw [startState, source_reportLexError] at hsource
  exact congrArg (_, Diagnostics.mk · _) hsource

/-- Yards with a sign of multiplication missing. -/
def unfinishedYards : String := "unit Yard \"yd\" = 3 Foot;"

/-- Meters on two lines, and a keyword by itself. -/
def metersAndMore : String := " unit Meter \"m\" =\n <Length>; scale"

/-- The yards are reported and given up, and the meters behind them are found where they stand. -/
theorem read_append_unfinishedYards :
    Token.EndsInSemicolon unfinishedYards ∧
      read none unfinishedYards = ({}, { items := [.errorAt .parse ⟨19, 23, 1, 20, 1, 23⟩
        "Expected ';', found identifier 'Foot'"] }) ∧
      (read none metersAndMore).1.units.map (fun u => (u.name, u.span)) =
        [("Meter", ⟨1, 28, 1, 2, 2, 10⟩)] ∧
      (read none (unfinishedYards ++ metersAndMore)).1.units.map (fun u => (u.name, u.span)) =
        [("Meter", ⟨25, 52, 1, 26, 2, 10⟩)] ∧
      (read none (unfinishedYards ++ metersAndMore)).2.items.map (·.message) =
        ["Expected ';', found identifier 'Foot'", "Expected scale name, found end of input"] := by
  have hends : Token.EndsInSemicolon unfinishedYards :=
    ⟨(Token.all unfinishedYards).take 11, ⟨.semicolon, ";", ⟨23, 24, 1, 24, 1, 24⟩⟩,
      ⟨.eof, "", ⟨24, 24, 1, 25, 1, 25⟩⟩, by decide +kernel, rfl⟩
  rw [read_append hends]
  refine ⟨hends, ?_, ?_, ?_, ?_⟩ <;> decide +kernel

end Quantity.Declarations
