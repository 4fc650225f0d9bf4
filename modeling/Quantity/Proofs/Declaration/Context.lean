import Quantity.Proofs.Declaration.Counting
import Quantity.Proofs.Declaration.Move
import Quantity.Proofs.Token.Append

/-!
# Reading in a context

A part of a declaration is read from the tokens in view, wherever they stand, whatever was reported
before, and whatever follows, provided that it does not go beyond the last token. A semicolon at the
end takes care of that: no part of a declaration takes one. `Agrees` says so of a reader, and there is
one lemma about it for each way to make a reader and for each part of a declaration.
-/

namespace Quantity.Parser

open List

variable {α β γ δ : Type}

/-! ### Contexts -/

/-- The tokens that are left, the one in view included. -/
def State.tokens (s : State) : List Token := s.current :: s.rest

def State.EndsIn (s : State) (kind : TokenKind) : Prop := Token.LastIs kind s.tokens

/-- **A context for tokens**: other places for them, what was reported before, and what follows. -/
structure Context where
  place : Span → Span
  before : List Diagnostic
  behind : List Token
  upTo : ∀ a b, place (a.upTo b) = (place a).upTo (place b)

namespace Context

variable (k : Context)

def diagnostics (ds : Diagnostics) : Diagnostics :=
  { ds with items := k.before ++ ds.items.map (·.move k.place) }

def state (s : State) : State where
  current := s.current.move k.place
  rest := s.rest.map (·.move k.place) ++ k.behind
  diagnostics := k.diagnostics s.diagnostics

/-- What follows is out of reach: there is nothing, or a semicolon is in front of it. -/
def Guards (s : State) : Prop :=
  k.behind = [] ∨ s.EndsIn .semicolon

theorem diagnostics_push (ds : Diagnostics) (stage : Stage) (span : Span) (message : String) :
    k.diagnostics (ds.push (.errorAt stage span message)) =
      (k.diagnostics ds).push (.errorAt stage (k.place span) message) := by
  simp [diagnostics, Diagnostics.push, Diagnostic.errorAt, Diagnostic.move, Notice.move]

theorem diagnostics_reportLexError (ds : Diagnostics) (t : Token) :
    k.diagnostics (reportLexError ds t) =
      reportLexError (k.diagnostics ds) (t.move k.place) := by
  unfold reportLexError
  cases hkind : t.kind <;> simp [Token.move, hkind, diagnostics_push]

end Context

def State.report (s : State) (span : Span) (message : String) : State :=
  { s with diagnostics := s.diagnostics.push (.errorAt .parse span message) }

/-- **What is left later on**: tokens were taken, of which malformed ones were reported, and faults
were reported at the token in view or at the last one that was taken, unless it is malformed. -/
inductive Later : State → State → Prop
  | refl (s : State) : Later s s
  | advance {s s' : State} : Later s s' → Later s s'.advance
  | here {s s' : State} (message : String) : Later s s' → (∀ e, s'.kind ≠ .error e) →
    Later s (s'.report s'.current.span message)
  | behind {s s' : State} (message : String) : Later s s' → (∀ e, s'.kind ≠ .error e) →
    Later s (s'.advance.report s'.current.span message)

theorem Later.trans (h : Later s s') (h' : Later s' s'') : Later s s'' := by
  induction h' with
  | refl => exact h
  | advance _ ih => exact .advance ih
  | here message _ hkind ih => exact .here message ih hkind
  | behind message _ hkind ih => exact .behind message ih hkind

theorem later_advance (s : State) : Later s s.advance := .advance (.refl s)

theorem source_reportLexError (ds : Diagnostics) (t : Token) :
    (reportLexError ds t).source = ds.source := by
  unfold reportLexError
  split <;> rfl

/-- What can be reported at a token: why it is malformed, or a fault if it is not. -/
inductive ReportedAt (source : Option String) (t : Token) : Diagnostic → Prop
  | malformed {e : LexError} : t.kind = .error e →
    ReportedAt source t { Diagnostic.errorAt .lex t.span e.message with source }
  | fault (message : String) : (∀ e, t.kind ≠ .error e) →
    ReportedAt source t { Diagnostic.errorAt .parse t.span message with source }

theorem exists_reportLexError (ds : Diagnostics) (t : Token) :
    ∃ new, (reportLexError ds t).items = ds.items ++ new ∧ ∀ d ∈ new, ReportedAt ds.source t d := by
  unfold reportLexError
  split
  · exact ⟨_, rfl, forall_mem_singleton.mpr (.malformed ‹_›)⟩
  · exact ⟨[], (append_nil _).symm, by simp⟩

/-- Tokens were taken, and each new report is about one of them or about the one in view. -/
structure Passes (s : State) (taken : List Token) (new : List Diagnostic) (s' : State) : Prop where
  source : s'.diagnostics.source = s.diagnostics.source
  tokens : s.tokens = taken ++ s'.tokens
  items : s'.diagnostics.items = s.diagnostics.items ++ new
  reports : ∀ d ∈ new, ∃ t ∈ taken ++ [s'.current], ReportedAt s.diagnostics.source t d

section Passes

variable {s s' : State} {taken : List Token} {new : List Diagnostic}

theorem Passes.advance (h : Passes s taken new s') : ∃ taken' new',
    Passes s taken' new' s'.advance ∧ s'.current ∈ taken' ++ [s'.advance.current] := by
  unfold State.advance
  cases hrest : s'.rest with
  | nil => exact ⟨taken, new, h, by simp⟩
  | cons t ts =>
    obtain ⟨more, hmore, hreports⟩ := exists_reportLexError s'.diagnostics t
    refine ⟨taken ++ [s'.current], new ++ more, ⟨?_, ?_, ?_, ?_⟩, by simp⟩
    · exact (source_reportLexError _ _).trans h.source
    · rw [h.tokens, State.tokens, hrest]
      exact append_cons ..
    · exact hmore.trans (by rw [h.items, List.append_assoc])
    · rw [forall_mem_append]
      refine ⟨fun d hd => ?_, fun d hd => ⟨t, by simp, h.source ▸ hreports d hd⟩⟩
      obtain ⟨u, hu, hd⟩ := h.reports d hd
      exact ⟨u, mem_append_left _ hu, hd⟩

theorem Passes.report (h : Passes s taken new s') (ht : t ∈ taken ++ [s'.current])
    (hkind : ∀ e, t.kind ≠ .error e) (message : String) :
    ∃ new', Passes s taken new' (s'.report t.span message) := by
  refine ⟨new ++ [{ Diagnostic.errorAt .parse t.span message with source := s.diagnostics.source }],
    h.source, h.tokens, ?_, forall_mem_append.mpr ⟨h.reports, ?_⟩⟩
  · rw [← List.append_assoc, ← h.items, ← h.source]
    rfl
  · exact forall_mem_singleton.mpr ⟨t, ht, .fault message hkind⟩

/-- **Whatever is later was passed on to.** -/
theorem Later.passes (h : Later s s') : ∃ taken new, Passes s taken new s' := by
  induction h with
  | refl => exact ⟨[], [], rfl, rfl, (append_nil _).symm, by simp⟩
  | advance _ ih =>
    obtain ⟨taken, new, ih⟩ := ih
    obtain ⟨taken', new', h, -⟩ := ih.advance
    exact ⟨taken', new', h⟩
  | here message _ hkind ih =>
    obtain ⟨taken, new, ih⟩ := ih
    exact ⟨taken, ih.report (by simp) hkind message⟩
  | behind message _ hkind ih =>
    obtain ⟨taken, new, ih⟩ := ih
    obtain ⟨taken', new', h, hmem⟩ := ih.advance
    exact ⟨taken', h.report hmem hkind message⟩

theorem Later.tokens (h : Later s s') : s'.tokens <:+ s.tokens := by
  obtain ⟨taken, new, h⟩ := h.passes
  exact ⟨taken, h.tokens.symm⟩

theorem Later.source (h : Later s s') : s'.diagnostics.source = s.diagnostics.source := by
  obtain ⟨taken, new, h⟩ := h.passes
  exact h.source

theorem Later.reported (h : Later s s') (hs : s.diagnostics.items ≠ []) :
    s'.diagnostics.items ≠ [] := by
  obtain ⟨taken, new, h⟩ := h.passes
  rw [h.items]
  exact append_ne_nil_of_left_ne_nil hs new

end Passes

theorem Later.length_le (h : Later s s') : s'.rest.length ≤ s.rest.length :=
  Nat.le_of_succ_le_succ h.tokens.length_le

theorem length_advance (s : State) : s.advance.rest.length = s.rest.length - 1 := by
  unfold State.advance
  split <;> simp_all

theorem State.EndsIn.later {kind : TokenKind} (h : s.EndsIn kind) (hs : Later s s') :
    s'.EndsIn kind := by
  obtain ⟨t, ht, hkind⟩ := h
  obtain ⟨pre, hpre⟩ := hs.tokens
  refine ⟨t, ?_, hkind⟩
  have hne : s'.tokens ≠ [] := cons_ne_nil _ _
  rw [← ht, ← hpre, getLast?_append_of_ne_nil _ hne]

theorem State.EndsIn.kind_eq {s : State} {kind : TokenKind} (h : s.EndsIn kind)
    (hrest : s.rest = []) : s.kind = kind := by
  obtain ⟨t, ht, hkind⟩ := h
  rw [State.tokens, hrest, getLast?_singleton, Option.some.injEq] at ht
  rw [State.kind, ht, hkind]

theorem Context.Guards.later {k : Context} (h : k.Guards s) (hs : Later s s') : k.Guards s' :=
  h.imp_right fun hends => hends.later hs

theorem Context.Guards.kind_eq {k : Context} (h : k.Guards s) (hrest : s.rest = [])
    (hbehind : k.behind ≠ []) : s.kind = .semicolon := (h.resolve_left hbehind).kind_eq hrest

/-! ### Readers that agree -/

/-- **Reading in a context goes as reading without it**: the same value with other places, or none,
and the same state in the context. -/
structure Agree (k : Context) (f : α → β) (x : Parse α) (x' : Parse β) (s : State) : Prop where
  eq : x' (k.state s) = ((x s).1.map f, k.state (x s).2)
  later : Later s (x s).2

/-- Reading goes the same from every state from which what follows is out of reach. -/
def Agrees (k : Context) (f : α → β) (x : Parse α) (x' : Parse β) : Prop :=
  ∀ s, k.Guards s → Agree k f x x' s

/-- An expression is read from a state in a context as without it. -/
abbrev AgreeOn (k : Context) (x : Parse Expr) (s : State) : Prop :=
  Agree k (Expr.move k.place) x x s

/-- An expression is read in a context as without it. -/
abbrev AgreesOn (k : Context) (x : Parse Expr) : Prop := Agrees k (Expr.move k.place) x x

section Combinators

variable {k : Context} {f : α → β} {g : γ → δ} {s : State}

theorem agrees_pure {a : α} {b : β} (h : f a = b) : Agrees k f (pure a) (pure b) := by
  subst h
  exact fun s _ => ⟨rfl, .refl s⟩

theorem bind_of_none {x : Parse α} {y : α → Parse β} {s' : State} (h : x s = (none, s')) :
    (x >>= y) s = (none, s') := by
  simp [Bind.bind, h]

theorem bind_of_some {x : Parse α} {y : α → Parse β} {a : α} {s' : State}
    (h : x s = (some a, s')) : (x >>= y) s = y a s' := by
  simp [Bind.bind, h]

theorem Agree.bind {x : Parse α} {x' : Parse β} {y : α → Parse γ} {y' : β → Parse δ}
    (hx : Agree k f x x' s)
    (hy : ∀ a, (x s).1 = some a → Agree k g (y a) (y' (f a)) (x s).2) :
    Agree k g (x >>= y) (x' >>= y') s := by
  obtain ⟨heq, hlater⟩ := hx
  cases hxs : x s with
  | mk a s₁ =>
    rw [hxs] at heq hlater hy
    cases a with
    | none =>
      constructor
      · rw [bind_of_none hxs, bind_of_none heq]
        rfl
      · rw [bind_of_none hxs]
        exact hlater
    | some a =>
      obtain ⟨heq', hlater'⟩ := hy a rfl
      constructor
      · rw [bind_of_some hxs, bind_of_some heq]
        exact heq'
      · rw [bind_of_some hxs]
        exact hlater.trans hlater'

theorem Agrees.bind {x : Parse α} {x' : Parse β} {y : α → Parse γ} {y' : β → Parse δ}
    (hx : Agrees k f x x') (hy : ∀ a, Agrees k g (y a) (y' (f a))) :
    Agrees k g (x >>= y) (x' >>= y') := by
  intro s hs
  exact (hx s hs).bind fun a _ => hy a _ (hs.later (hx s hs).later)

theorem bind_look (y : Token → Parse α) (s : State) :
    ((liftM look : Parse Token) >>= y) s = y s.current s := rfl

theorem agree_look {y : Token → Parse α} {y' : Token → Parse β}
    (h : Agree k f (y s.current) (y' (s.current.move k.place)) s) :
    Agree k f (look >>= y) (look >>= y') s :=
  ⟨h.eq, h.later⟩

theorem state_advance (h : s.rest ≠ [] ∨ k.behind = []) :
    (k.state s).advance = k.state s.advance := by
  unfold State.advance
  cases hrest : s.rest with
  | nil =>
    have hbehind : k.behind = [] := h.resolve_left fun hne => hne hrest
    simp [Context.state, hrest, hbehind]
  | cons t ts => simp [Context.state, hrest, k.diagnostics_reportLexError]

theorem Context.Guards.state_advance (hs : k.Guards s)
    (hkind : s.kind ≠ .semicolon ∨ k.behind = []) : (k.state s).advance = k.state s.advance := by
  refine Parser.state_advance ?_
  by_contra hnot
  obtain ⟨hrest, hbehind⟩ := not_or.mp hnot
  exact hkind.elim (fun hne => hne (hs.kind_eq (not_not.mp hrest) hbehind)) hbehind

theorem agree_advance (hs : k.Guards s) (hkind : s.kind ≠ .semicolon ∨ k.behind = []) :
    Agree k id advance advance s :=
  ⟨congrArg (some (), ·) (hs.state_advance hkind), later_advance s⟩

theorem agree_take (hs : k.Guards s) (hkind : s.kind ≠ .semicolon ∨ k.behind = []) :
    Agree k (Token.move k.place) take take s :=
  ⟨congrArg (some (s.current.move k.place), ·) (hs.state_advance hkind), later_advance s⟩

theorem agree_advance_bind {x : Parse α} {x' : Parse β} (hs : k.Guards s)
    (hkind : s.kind ≠ .semicolon) (h : Agrees k f x x') :
    Agree k f (advance >>= fun _ => x) (advance >>= fun _ => x') s :=
  (agree_advance hs (.inl hkind)).bind fun _ _ => h _ (hs.later (later_advance s))

theorem agree_take_bind {y : Token → Parse α} {y' : Token → Parse β} (hs : k.Guards s)
    (hkind : s.kind ≠ .semicolon) (h : ∀ t, Agrees k f (y t) (y' (t.move k.place))) :
    Agree k f (take >>= y) (take >>= y') s :=
  (agree_take hs (.inl hkind)).bind fun t _ => h t _ (hs.later (later_advance s))

theorem fail_state (span : Span) {e e' : ParseError} (h : e.message = e'.message) (s : State) :
    (fail (k.place span) e' : Parse β) (k.state s) =
      (none, k.state (s.report span e.message)) := by
  simp only [fail, State.report, Context.state, k.diagnostics_push, h]

theorem agree_failHere (e : ParseError) (hkind : ∀ e, s.kind ≠ .error e) :
    Agree k f (failHere e) (failHere e) s :=
  ⟨fail_state s.current.span rfl s, .here e.message (.refl s) hkind⟩

theorem agrees_unexpected (what : String) : Agrees k f (unexpected what) (unexpected what) := by
  intro s hs
  -- the kind is the same on both sides
  have hsame : (k.state s).kind = s.kind := rfl
  by_cases hkind : ∀ e, s.kind ≠ .error e
  · have hleft : (unexpected what : Parse α) s =
        (none, s.report s.current.span (ParseError.expected what s.current).message) := by
      unfold unexpected
      split
      · exact absurd ‹_› (hkind _)
      · rfl
    have hright : (unexpected what : Parse β) (k.state s) =
        fail (k.place s.current.span) (.expected what (s.current.move k.place)) (k.state s) := by
      unfold unexpected
      split
      · exact absurd (hsame.symm.trans ‹_›) (hkind _)
      · rfl
    constructor
    · rw [hleft]
      exact hright.trans (fail_state _ rfl s)
    · rw [hleft]
      exact .here _ (.refl s) hkind
  · obtain ⟨e, he⟩ := not_forall_not.mp hkind
    have hleft : (unexpected what : Parse α) s = (none, s) := by
      rw [unexpected, he]
    have hright : (unexpected what : Parse β) (k.state s) = (none, k.state s) := by
      rw [unexpected, hsame, he]
    exact ⟨by rw [hleft, hright]; rfl, by rw [hleft]; exact .refl s⟩

theorem unexpected_fst (what : String) (s : State) : ((unexpected what : Parse α) s).1 = none := by
  unfold unexpected
  split <;> rfl

theorem kind_ne (h : s.current.kind = kind) (hne : kind ≠ other) : s.kind ≠ other :=
  ne_of_eq_of_ne h hne

/-- A token of a kind is taken, unless the kind is a semicolon and something follows. -/
theorem agrees_expect (kind : TokenKind) (hkind : kind ≠ .semicolon ∨ k.behind = []) :
    Agrees k (Token.move k.place) (expect kind) (expect kind) := by
  intro s hs
  refine agree_look ?_
  by_cases h : s.current.kind = kind
  · rw [if_pos h, if_pos (by exact h)]
    exact agree_take hs (hkind.imp_left (kind_ne h))
  · rw [if_neg h, if_neg (by exact h)]
    exact agrees_unexpected _ s hs

theorem ne_of_isName (h : isName t = true) (hne : ∀ verbatim, .identifier verbatim ≠ kind) :
    t.kind ≠ kind := by
  unfold isName at h
  split at h
  · exact ne_of_eq_of_ne ‹_› (hne _)
  · cases h

theorem kind_of_isKeyword {t : Token} (h : t.isKeyword word = true) :
    t.kind = .identifier false := by
  rw [Token.isKeyword, Bool.and_eq_true, decide_eq_true_eq] at h
  exact h.1

theorem agrees_expectName (what : String) :
    Agrees k (Token.move k.place) (expectName what) (expectName what) := by
  intro s hs
  refine agree_look ?_
  by_cases h : isName s.current = true
  · rw [if_pos h, if_pos (by exact h)]
    exact agree_take hs (.inl (ne_of_isName h nofun))
  · rw [if_neg h, if_neg (by exact h)]
    exact agrees_unexpected _ s hs

theorem agrees_named {what : String} {y : Token → Parse α} {y' : Token → Parse β}
    (h : ∀ t, Agrees k f (y t) (y' (t.move k.place)) ∨
      ∃ e, y t = fail t.span e ∧ y' (t.move k.place) = fail (k.place t.span) e) :
    Agrees k f (expectName what >>= y) (expectName what >>= y') := by
  intro s hs
  have hexpect := agrees_expectName (k := k) what s hs
  by_cases hname : isName s.current = true
  · have hread : expectName what s = (some s.current, s.advance) := by
      exact congrFun (if_pos hname) s
    rcases h s.current with h | ⟨e, hy, hy'⟩
    · refine hexpect.bind fun t ht => ?_
      rw [hread] at ht ⊢
      cases ht
      exact h _ (hs.later (later_advance s))
    · have hread' := hexpect.eq
      rw [hread] at hread'
      constructor
      · rw [bind_of_some hread', bind_of_some hread, hy']
        exact (fail_state _ rfl _).trans (by rw [hy]; rfl)
      · rw [bind_of_some hread, hy]
        exact .behind _ (.refl s) fun _ => ne_of_isName hname nofun
  · refine hexpect.bind fun t ht => ?_
    have hread : expectName what s = unexpected what s := congrFun (if_neg hname) s
    rw [hread, unexpected_fst] at ht
    cases ht

end Combinators

/-! ### Expressions -/

section Expressions

variable {k : Context} {s : State}

/-- A loop that stops at a semicolon needs no more steps than there are tokens. -/
theorem agree_zero {f : α → β} {x : Parse α} {y : Nat → Parse β} {a : α} (hx : x = pure a)
    (hzero : y 0 = pure (f a))
    (hsemicolon : ∀ n s, s.kind = .semicolon → y (n + 1) s = (some (f a), s))
    (hs : k.Guards s) (hrest : s.rest.length ≤ 0) : Agree k f x (y (0 + k.behind.length)) s := by
  have hpure := agrees_pure (k := k) (f := f) (a := a) rfl s hs
  subst hx
  cases hbehind : k.behind with
  | nil =>
    rw [length_nil, hzero]
    exact hpure
  | cons b bs =>
    have hkind := hs.kind_eq (length_eq_zero_iff.mp (Nat.le_zero.mp hrest))
      (hbehind ▸ cons_ne_nil b bs)
    exact ⟨hsemicolon _ _ hkind, hpure.later⟩

theorem agree_chainFrom {operand : Parse Expr} {operator? : TokenKind → Option Arith}
    (hoperand : AgreesOn k operand) (hoperator : operator? .semicolon = none) {fuel : Nat}
    (left : Expr) (hs : k.Guards s) (hfuel : s.rest.length ≤ fuel) :
    Agree k (Expr.move k.place) (chainFrom operand operator? fuel left)
      (chainFrom operand operator? (fuel + k.behind.length) (left.move k.place)) s := by
  induction fuel generalizing left s with
  | zero =>
    refine agree_zero (y := fun n => chainFrom operand operator? n (left.move k.place)) rfl rfl
      (fun n s hkind => ?_) hs hfuel
    rw [State.kind] at hkind
    rw [chainFrom, bind_look, hkind, hoperator]
    rfl
  | succ fuel ih =>
    rw [Nat.add_right_comm]
    refine agree_look ?_
    rw [Token.kind_move]
    cases hop : operator? s.current.kind with
    | none => exact agrees_pure rfl s hs
    | some op =>
      have hkind : s.kind ≠ .semicolon := by
        intro hkind
        rw [State.kind] at hkind
        rw [hkind, hoperator] at hop
        cases hop
      have hadvance : k.Guards s.advance := hs.later (later_advance s)
      have hlater := (hoperand _ hadvance).later
      have hlength := hlater.length_le
      rw [length_advance] at hlength
      refine (agree_advance hs (.inl hkind)).bind fun _ _ => ?_
      refine (hoperand _ hadvance).bind fun right _ => ?_
      exact ih (.arith op left right) (hadvance.later hlater) (by omega)

theorem agrees_loop {f : α → β} {x : Nat → Parse α} {y : Nat → Parse β}
    (h : ∀ s, k.Guards s → Agree k f (x s.rest.length) (y (s.rest.length + k.behind.length)) s) :
    Agrees k f (fun s => x s.rest.length s) (fun s => y s.rest.length s) := by
  intro s hs
  obtain ⟨heq, hlater⟩ := h s hs
  refine ⟨?_, hlater⟩
  have hlength : (k.state s).rest.length = s.rest.length + k.behind.length := by
    simp [Context.state]
  rw [← heq, hlength]

theorem agrees_chain {operand : Parse Expr} {operator? : TokenKind → Option Arith}
    (hoperand : AgreesOn k operand) (hoperator : operator? .semicolon = none) :
    AgreesOn k (chain operand operator?) := by
  refine hoperand.bind fun left => ?_
  exact agrees_loop (x := fun n => chainFrom operand operator? n left)
    (y := fun n => chainFrom operand operator? n (left.move k.place))
    fun s hs => agree_chainFrom hoperand hoperator left hs (Nat.le_refl _)

theorem agree_magnitude (hs : k.Guards s) (hkind : s.kind ≠ .semicolon) :
    AgreeOn k magnitude s := by
  refine agree_take_bind hs hkind fun start s hs => ?_
  have hclose (m : Option Magnitude) : Agrees k (Expr.move k.place)
      (expect .greater >>= fun stop => pure (.magnitude m (start.span.upTo stop.span)))
      (expect .greater >>= fun stop =>
        pure (.magnitude (id m) ((start.move k.place).span.upTo stop.span))) := by
    refine (agrees_expect .greater (.inl nofun)).bind fun stop => agrees_pure ?_
    rw [Expr.move, k.upTo]
    rfl
  refine agree_look ?_
  rw [Token.kind_move]
  split_ifs
  · exact ((agrees_pure rfl).bind hclose : Agrees ..) _ hs
  · refine (agrees_named fun name => ?_ : Agrees ..) _ hs
    rw [Token.value_move]
    cases Magnitude.ofName? name.value with
    | none => exact .inr ⟨_, rfl, rfl⟩
    | some m => exact .inl ((agrees_pure rfl).bind hclose)

theorem agrees_dimensionOf (hterm : AgreesOn k term) : AgreesOn k (dimensionOf term) := by
  refine (agrees_chain hterm rfl).bind fun e s hs => agree_look ?_
  rw [Token.kind_move]
  split_ifs with h
  · exact agree_failHere _ fun _ => kind_ne h nofun
  · exact agrees_pure rfl s hs

theorem agree_parenthesized {inner : Parse Expr} (hinner : AgreesOn k inner) (hs : k.Guards s)
    (hkind : s.kind ≠ .semicolon) : AgreeOn k (parenthesized inner) s := by
  refine agree_advance_bind hs hkind (hinner.bind fun e => ?_)
  exact (agrees_expect .closeParen (.inl nofun)).bind fun _ => agrees_pure rfl

theorem agrees_dimensionTermWith
    (hgroup : ∀ s, k.Guards s → s.kind = .openParen → AgreeOn k group s) :
    AgreesOn k (dimensionTermWith group) := by
  intro s hs
  refine agree_look ?_
  rw [Token.kind_move]
  cases h : s.current.kind with
  | less => exact agree_magnitude hs (kind_ne h nofun)
  | number => exact agree_advance_bind hs (kind_ne h nofun) (agrees_pure rfl)
  | string => exact agree_advance_bind hs (kind_ne h nofun) (agrees_pure rfl)
  | identifier verbatim =>
    refine agree_advance_bind hs (kind_ne h nofun) (agrees_pure ?_)
    show _ = if isConstant s.current then _ else _
    split_ifs <;> rfl
  | openParen => exact hgroup s hs h
  | caret => exact agree_failHere _ fun _ => kind_ne h nofun
  | _ => exact agrees_unexpected _ s hs

theorem agrees_dimensionTerm (depth : Nat) : AgreesOn k (dimensionTermWithin depth) := by
  induction depth with
  | zero =>
    exact agrees_dimensionTermWith fun s _ hkind => agree_failHere _ fun _ => kind_ne hkind nofun
  | succ depth ih =>
    exact agrees_dimensionTermWith fun s hs hkind =>
      agree_parenthesized (agrees_dimensionOf ih) hs (kind_ne hkind nofun)

theorem agrees_dimension : AgreesOn k (dimensionWithin maxNesting) :=
  agrees_dimensionOf (agrees_dimensionTerm _)

theorem agrees_numeralOf (hfactor : AgreesOn k factor) : AgreesOn k (numeralOf factor) :=
  agrees_chain (agrees_chain hfactor rfl) rfl

theorem agrees_unitFactor (t : Token) :
    Agrees k (Expr.move k.place) (unitFactor t) (unitFactor (t.move k.place)) := by
  refine (agrees_expect .dot (.inl nofun)).bind fun _ => ?_
  refine agrees_named fun property => ?_
  rw [Token.value_move]
  split_ifs
  · refine .inl (agrees_pure ?_)
    rw [Expr.move, k.upTo]
    rfl
  · exact .inr ⟨_, rfl, rfl⟩

theorem agree_signed (hoperand : AgreesOn k operand) (hs : k.Guards s)
    (hkind : s.kind ≠ .semicolon) : AgreeOn k (signed operand) s := by
  refine agree_take_bind hs hkind fun sign => ?_
  exact hoperand.bind fun e => agrees_pure rfl

theorem agrees_numeralFactorWith
    (hsign : ∀ s, k.Guards s → s.kind = .plus ∨ s.kind = .minus → AgreeOn k sign s)
    (hgroup : ∀ s, k.Guards s → s.kind = .openParen → AgreeOn k group s) :
    AgreesOn k (numeralFactorWith sign group) := by
  intro s hs
  refine agree_look ?_
  rw [Token.kind_move]
  cases h : s.current.kind with
  | plus => exact hsign s hs (.inl h)
  | minus => exact hsign s hs (.inr h)
  | number => exact agree_advance_bind hs (kind_ne h nofun) (agrees_pure rfl)
  | string => exact agree_advance_bind hs (kind_ne h nofun) (agrees_pure rfl)
  | identifier verbatim =>
    refine agree_advance_bind hs (kind_ne h nofun) ?_
    show Agrees k _ _ (if isConstant s.current then _ else _)
    split_ifs
    · exact agrees_pure rfl
    · exact agrees_unitFactor _
  | openParen => exact hgroup s hs h
  | _ => exact agrees_unexpected _ s hs

theorem agrees_numeralFactor (depth : Nat) : AgreesOn k (numeralFactorWithin depth) := by
  induction depth with
  | zero =>
    refine agrees_numeralFactorWith (fun s _ hkind => agree_failHere _ fun _ => ?_)
      fun s _ hkind => agree_failHere _ fun _ => kind_ne hkind nofun
    exact hkind.elim (kind_ne · nofun) (kind_ne · nofun)
  | succ depth ih =>
    refine agrees_numeralFactorWith (fun s hs hkind => agree_signed ih hs ?_)
      fun s hs hkind => agree_parenthesized (agrees_numeralOf ih) hs (kind_ne hkind nofun)
    exact hkind.elim (kind_ne · nofun) (kind_ne · nofun)

theorem agrees_numeral : AgreesOn k (numeralWithin maxNesting) :=
  agrees_numeralOf (agrees_numeralFactor _)

end Expressions

/-! ### Declarations -/

section Declarations

variable {k : Context} {s : State}

theorem agrees_kindClause : Agrees k id kindClause kindClause := by
  intro s hs
  refine agree_look ?_
  rw [Token.kind_move]
  split_ifs with h
  · refine agree_advance_bind hs (kind_ne h nofun) (agrees_named fun word => ?_)
    rw [Token.value_move]
    cases NumericKind.ofKeyword? word.value with
    | none => exact .inr ⟨_, rfl, rfl⟩
    | some kind =>
      refine .inl ((agrees_expect .greater (.inl nofun)).bind fun _ => ?_)
      exact agrees_pure rfl
  · exact agrees_pure rfl s hs

theorem agree_tags (hs : k.Guards s) (hfuel : s.rest.length ≤ fuel) :
    Agree k id (tags fuel) (tags (fuel + k.behind.length)) s := by
  induction fuel generalizing s with
  | zero =>
    refine agree_zero (y := tags) rfl rfl (fun n s hkind => ?_) hs hfuel
    show (if s.kind = .string then _ else pure [] : Parse (List String)) s = _
    rw [hkind]
    rfl
  | succ fuel ih =>
    rw [Nat.add_right_comm]
    refine agree_look ?_
    rw [Token.kind_move]
    split_ifs with h
    · have hkind : s.kind ≠ .semicolon := kind_ne h nofun
      have hs' : k.Guards s.advance := hs.later (later_advance s)
      have hlength := length_advance s
      refine (agree_advance hs (.inl hkind)).bind fun _ _ => ?_
      have htags := ih hs' (by omega)
      refine htags.bind fun more _ => ?_
      exact agrees_pure rfl _ (hs'.later htags.later)
    · exact agrees_pure rfl s hs

theorem agrees_someTags : Agrees k id someTags someTags := by
  refine (agrees_loop fun s hs => agree_tags hs (Nat.le_refl _)).bind fun found => ?_
  dsimp only [id]
  split_ifs
  · exact agrees_unexpected _
  · exact agrees_pure rfl

theorem agrees_formatClause : Agrees k id formatClause formatClause := by
  intro s hs
  refine agree_look ?_
  rw [Token.kind_move]
  split_ifs with h
  · refine agree_advance_bind hs (kind_ne h nofun) ?_
    exact (agrees_expect .string (.inl nofun)).bind fun t => agrees_pure rfl
  · exact agrees_pure rfl s hs

theorem agree_alternatives (hs : k.Guards s) (hfuel : s.rest.length ≤ fuel) :
    Agree k (List.map (Expr.move k.place)) (alternativesWithin maxNesting fuel)
      (alternativesWithin maxNesting (fuel + k.behind.length)) s := by
  induction fuel generalizing s with
  | zero =>
    refine agree_zero (y := alternativesWithin maxNesting) rfl rfl (fun n s hkind => ?_) hs hfuel
    show (if s.kind = .pipe then _ else pure [] : Parse (List Expr)) s = _
    rw [hkind]
    rfl
  | succ fuel ih =>
    rw [Nat.add_right_comm]
    refine agree_look ?_
    rw [Token.kind_move]
    split_ifs with h
    · have hkind : s.kind ≠ .semicolon := kind_ne h nofun
      have hs' : k.Guards s.advance := hs.later (later_advance s)
      have hdimension := agrees_dimension _ hs'
      have hlength := hdimension.later.length_le
      rw [length_advance] at hlength
      refine (agree_advance hs (.inl hkind)).bind fun _ _ => ?_
      refine hdimension.bind fun e _ => ?_
      have hmore := ih (hs'.later hdimension.later) (by omega)
      refine hmore.bind fun more _ => ?_
      exact agrees_pure rfl _ ((hs'.later hdimension.later).later hmore.later)
    · exact agrees_pure rfl s hs

theorem agrees_refPointClause : Agrees k id refPointClause refPointClause := by
  intro s hs
  refine agree_look ?_
  show Agree k _ _ (if isName s.current = true then _ else _) s
  split_ifs with h
  · exact agree_take_bind hs (ne_of_isName h nofun) fun t => agrees_pure rfl
  · exact agrees_pure rfl s hs

theorem startsWithUnit_apply (s : State) : startsWithUnit s =
    (some (isName s.current && !isConstant s.current && (s.rest.headD s.current).kind != .dot), s) :=
  rfl

theorem agrees_startsWithUnit : Agrees k id startsWithUnit startsWithUnit := by
  intro s hs
  refine ⟨?_, .refl s⟩
  have hname : isName (k.state s).current = isName s.current := rfl
  have hconstant : isConstant (k.state s).current = isConstant s.current := rfl
  rw [startsWithUnit_apply, startsWithUnit_apply, hname]
  by_cases hend : s.rest = [] ∧ k.behind ≠ []
  · -- what follows the last token does not matter, since a semicolon is no name
    have hkind : s.current.kind = .semicolon := hs.kind_eq hend.1 hend.2
    simp [isName, hkind]
  · have hnext : ((k.state s).rest.headD (k.state s).current).kind =
        (s.rest.headD s.current).kind := by
      cases hrest : s.rest with
      | nil =>
        have hbehind : k.behind = [] := by simpa [hrest] using hend
        simp [Context.state, hrest, hbehind]
      | cons t ts => simp [Context.state, hrest]
    rw [hnext]
    rfl

theorem agrees_scaleBody :
    Agrees k (Prod.map (Token.move k.place) (Expr.move k.place)) (scaleBodyWithin maxNesting)
      (scaleBodyWithin maxNesting) := by
  intro s hs
  refine (agrees_startsWithUnit s hs).bind fun unitFirst hfirst => ?_
  cases unitFirst with
  | true =>
    have hname : isName s.current = true := by
      have hfirst := Option.some.inj hfirst
      simp only [Bool.and_eq_true] at hfirst
      exact hfirst.1.1
    refine agree_take_bind hs (ne_of_isName hname nofun) fun unit => ?_
    exact agrees_numeral.bind fun offset => agrees_pure rfl
  | false =>
    refine (agrees_numeral.bind fun offset s hs => ?_ : Agrees ..) _ hs
    refine agree_look ?_
    show Agree k _ _ (if s.current.isKeyword .from = true then _ else _) s
    split_ifs with hfrom
    · refine agree_advance_bind hs (kind_ne (kind_of_isKeyword hfrom) nofun) ?_
      exact (agrees_expectName _).bind fun unit => agrees_pure rfl
    · exact agrees_unexpected _ s hs

/-! A declaration is what stands between its keyword and its semicolon, but for its span. -/

def allAlternatives : Parse (List Expr) := fun s => alternativesWithin maxNesting s.rest.length s

/-- What stands between the keyword of a unit and its semicolon. -/
def unitClauses (start : Token) : Parse UnitDecl := do
  let kind ← kindClause
  let name ← expectName "unit name"
  let tags ← someTags
  let format ← formatClause
  let _ ← expect .equal
  let definition ← dimensionWithin maxNesting
  let alternatives ← allAlternatives
  pure { name := name.value, span := start.span, kind, tags, format, definition, alternatives }

/-- What stands between the keyword of a scale and its semicolon. -/
def scaleClauses (start : Token) : Parse ScaleDecl := do
  let name ← expectName "scale name"
  let format ← formatClause
  let refPoint ← refPointClause
  let _ ← expect .equal
  let (unit, offset) ← scaleBodyWithin maxNesting
  pure
    { name := name.value
      span := start.span
      unit := unit.value
      unitSpan := unit.span
      format, refPoint, offset }

theorem bind_bind (x : Parse α) (y : α → Parse β) (z : β → Parse γ) :
    x >>= y >>= z = x >>= fun a => y a >>= z := by
  funext s
  simp only [Bind.bind]
  rcases x s with ⟨_ | a, s⟩ <;> rfl

theorem unitDeclaration_eq :
    unitDeclaration = take >>= fun start => unitClauses start >>= fun u =>
      expect .semicolon >>= fun stop => pure { u with span := u.span.upTo stop.span } := by
  simp only [unitClauses, bind_bind, unitDeclaration_eq_within]
  rfl

theorem scaleDeclaration_eq :
    scaleDeclaration = take >>= fun start => scaleClauses start >>= fun d =>
      expect .semicolon >>= fun stop => pure { d with span := d.span.upTo stop.span } := by
  simp only [scaleClauses, bind_bind, scaleDeclaration_eq_within]
  rfl

theorem agrees_allAlternatives :
    Agrees k (List.map (Expr.move k.place)) allAlternatives allAlternatives :=
  agrees_loop fun _ hs => agree_alternatives hs (Nat.le_refl _)

theorem agrees_unitClauses (start : Token) :
    Agrees k (UnitDecl.move k.place) (unitClauses start) (unitClauses (start.move k.place)) := by
  refine agrees_kindClause.bind fun kind => ?_
  refine (agrees_expectName _).bind fun name => ?_
  refine agrees_someTags.bind fun tags => ?_
  refine agrees_formatClause.bind fun format => ?_
  refine (agrees_expect .equal (.inl nofun)).bind fun _ => ?_
  refine agrees_dimension.bind fun definition => ?_
  refine agrees_allAlternatives.bind fun alternatives => ?_
  exact agrees_pure rfl

theorem agrees_scaleClauses (start : Token) :
    Agrees k (ScaleDecl.move k.place) (scaleClauses start) (scaleClauses (start.move k.place)) := by
  refine (agrees_expectName _).bind fun name => ?_
  refine agrees_formatClause.bind fun format => ?_
  refine agrees_refPointClause.bind fun refPoint => ?_
  refine (agrees_expect .equal (.inl nofun)).bind fun _ => ?_
  refine agrees_scaleBody.bind fun body => ?_
  exact agrees_pure rfl

end Declarations

end Quantity.Parser
