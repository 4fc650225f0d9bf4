import Quantity.Proofs.Declaration.Context
import Quantity.Proofs.Declaration.Grammar

/-!
# Readers recognize the grammar

A reader that gives a value took tokens, and the grammar says which value they stand for; a reader that
gives none has reported something. Readers are greedy, so that which tokens they take depends on the one
that follows: what a reader recognizes is a relation between the tokens taken, the value, and the kind of
the token behind them. `Recognizes` says so of a reader, and there is one lemma about it for each way to
make a reader and for each part of a declaration.
-/

namespace Quantity.Parser

open Grammar List

variable {α β : Type} {s s' s'' : State} {ts us : List Token}

/-! ### Taking tokens -/

/-- The tokens in view one after another, up to another state. -/
inductive Takes : State → List Token → State → Prop
  | nil (s : State) : Takes s [] s
  | cons {s s' : State} {ts : List Token} : s.rest ≠ [] → Takes s.advance ts s' →
    Takes s (s.current :: ts) s'

/-- The kind of the first one of the tokens, or else of what is behind them. -/
def headKind (ts : List Token) (behind : TokenKind) : TokenKind := (ts.map Token.kind).headD behind

@[simp] theorem headKind_cons (t : Token) (ts : List Token) (behind : TokenKind) :
    headKind (t :: ts) behind = t.kind := rfl

/-- The token in view is reported, if it is malformed. -/
def State.Told (s : State) : Prop := ∀ e, s.kind = .error e → s.diagnostics.items ≠ []

theorem reportLexError_ne_nil (h : t.kind = .error e) : (reportLexError ds t).items ≠ [] := by
  simp [reportLexError, h, Diagnostics.push]

theorem State.told_advance (h : s.rest ≠ []) : s.advance.Told := by
  intro e he
  unfold State.advance at he ⊢
  split at he
  · contradiction
  · exact reportLexError_ne_nil he

namespace Takes

theorem later (h : Takes s ts s') : Later s s' := by
  induction h with
  | nil s => exact .refl s
  | cons _ _ ih => exact (later_advance _).trans ih

theorem tokens_advance (h : s.rest ≠ []) : s.tokens = s.current :: s.advance.tokens := by
  unfold State.advance State.tokens
  cases hrest : s.rest with
  | nil => contradiction
  | cons t ts => rfl

theorem tokens (h : Takes s ts s') : s.tokens = ts ++ s'.tokens := by
  induction h with
  | nil s => rfl
  | cons hrest _ ih => rw [tokens_advance hrest, ih, cons_append]

theorem length (h : Takes s ts s') : s.rest.length = ts.length + s'.rest.length := by
  have hlength := congrArg List.length h.tokens
  simp only [State.tokens, length_append, length_cons] at hlength
  omega

theorem le_of_single (h : Takes s ts s') (hts : ts = [t]) (hfuel : s.rest.length ≤ fuel + 1) :
    s'.rest.length ≤ fuel := by
  have hlength := h.length
  rw [hts, length_singleton] at hlength
  omega

theorem kind (h : Takes s ts s') : s.kind = headKind ts s'.kind := by
  cases h <;> rfl

theorem told (h : Takes s ts s') (hs : s.Told) : s'.Told := by
  induction h with
  | nil s => exact hs
  | cons hrest _ ih => exact ih (State.told_advance hrest)

theorem single (h : s.rest ≠ []) : Takes s [s.current] s.advance := .cons h (.nil _)

theorem append (h : Takes s ts s') (h' : Takes s' us s'') : Takes s (ts ++ us) s'' := by
  induction h with
  | nil s => exact h'
  | cons hrest _ ih => exact .cons hrest (ih h')

theorem split (h : Takes s (ts ++ us) s'') : ∃ s', Takes s ts s' ∧ Takes s' us s'' := by
  induction ts generalizing s with
  | nil => exact ⟨s, .nil s, h⟩
  | cons t ts ih =>
    cases h with
    | cons hrest h =>
      obtain ⟨s', hts, hus⟩ := ih h
      exact ⟨s', .cons hrest hts, hus⟩

theorem eq_current (h : Takes s (t :: ts) s') : t = s.current := by
  cases h
  rfl

theorem unique (h : Takes s ts s') (h' : Takes s ts s'') : s' = s'' := by
  induction h with
  | nil s =>
    cases h'
    rfl
  | cons _ _ ih =>
    cases h' with
    | cons _ h' => exact ih h'

theorem exists_of_tokens (h : s.tokens = ts ++ t :: us) :
    ∃ s', Takes s ts s' ∧ s'.tokens = t :: us := by
  induction ts generalizing s with
  | nil => exact ⟨s, .nil s, h⟩
  | cons u ts ih =>
    have hrest : s.rest ≠ [] := by
      intro hnil
      rw [State.tokens, hnil] at h
      simp at h
    rw [tokens_advance hrest] at h
    obtain ⟨rfl, htokens⟩ := List.cons.inj h
    obtain ⟨s', hs', hleft⟩ := ih htokens
    exact ⟨s', .cons hrest hs', hleft⟩

end Takes

/-! ### Readers -/

/-- What a reader recognizes: tokens, the value they stand for, and the kind of what follows. -/
abbrev Language (α : Type) : Type := List Token → α → TokenKind → Prop

/-- **Reading from a state goes by a language**: a value is given exactly for the tokens that stand for
it, and something is reported if none is given. -/
structure Accepts (x : Parse α) (R : Language α) (s : State) : Prop where
  some_iff : ∀ {a s'}, x s = (some a, s') ↔ ∃ ts, Takes s ts s' ∧ R ts a s'.kind
  reports : s.Told → (x s).1 = none → (x s).2.diagnostics.items ≠ []

/-- Reading goes by a language from every state. -/
def Recognizes (x : Parse α) (R : Language α) : Prop := ∀ s, s.EndsIn .eof → Accepts x R s

namespace Language

def never : Language α := fun _ _ _ => False

def value (a : α) : Language α := fun ts b _ => ts = [] ∧ b = a

def token (P : Token → Prop) : Language Token := fun ts t _ => ts = [t] ∧ P t

def skip (t : Token) : Language Unit := fun ts _ _ => ts = [t]

/-- Tokens for one reader, and behind them tokens for another one. -/
def andThen (R : Language α) (Q : α → Language β) : Language β := fun ts b k =>
  ∃ us vs a, ts = us ++ vs ∧ R us a (headKind vs k) ∧ Q a vs b k

theorem value_andThen : (value a).andThen Q ts b k ↔ Q a ts b k := by
  simp [andThen, value]

theorem never_andThen : ¬ never.andThen Q ts b k := by
  simp [andThen, never]

theorem token_andThen : (token P).andThen Q ts b k ↔ ∃ t us, ts = t :: us ∧ P t ∧ Q t us b k := by
  constructor
  · rintro ⟨_, us, t, rfl, ⟨rfl, ht⟩, hQ⟩
    exact ⟨t, us, rfl, ht, hQ⟩
  · rintro ⟨t, us, rfl, ht, hQ⟩
    exact ⟨[t], us, t, rfl, ⟨rfl, ht⟩, hQ⟩

theorem skip_andThen : (skip t).andThen Q ts b k ↔ ∃ us, ts = t :: us ∧ Q () us b k := by
  simp [andThen, skip, Unique.exists_iff]

end Language

section Combinators

variable {x : Parse α} {R R' : Language α} {y : α → Parse β} {Q : α → Language β}

theorem Accepts.congr (h : Accepts x R s)
    (hR : ∀ ts a s', Takes s ts s' → (R ts a s'.kind ↔ R' ts a s'.kind)) : Accepts x R' s := by
  refine ⟨fun {a s'} => ?_, h.reports⟩
  rw [h.some_iff]
  exact exists_congr fun ts => and_congr_right fun hts => hR ts a s' hts

theorem Recognizes.congr (h : Recognizes x R) (hR : ∀ ts a k, R ts a k ↔ R' ts a k) :
    Recognizes x R' :=
  fun s hs => (h s hs).congr fun ts a s' _ => hR ts a s'.kind

/-- Languages of which only what begins with the token in view matters. -/
theorem Accepts.congr_head (h : Accepts x R s) (hnil : ∀ a k, R [] a k ↔ R' [] a k)
    (hcons : ∀ us a k, R (s.current :: us) a k ↔ R' (s.current :: us) a k) : Accepts x R' s := by
  refine h.congr fun ts a s' hts => ?_
  cases hts with
  | nil => exact hnil a _
  | cons => exact hcons _ a _

theorem accepts_pure (a : α) (s : State) : Accepts (pure a) (.value a) s := by
  refine ⟨fun {b s'} => ⟨fun h => ?_, ?_⟩, fun _ h => nomatch h⟩
  · cases h
    exact ⟨[], .nil s, rfl, rfl⟩
  · rintro ⟨_, hts, rfl, rfl⟩
    cases hts
    rfl

/-- A value is given without a token where nothing that begins here stands for one. -/
theorem accepts_stop {a : α} (hnil : ∀ b, R [] b s.kind ↔ b = a)
    (hcons : s.rest ≠ [] → ∀ us b k, ¬ R (s.current :: us) b k) : Accepts (pure a) R s := by
  refine (accepts_pure a s).congr fun ts b s' hts => ?_
  cases hts with
  | nil => exact (and_iff_right rfl).trans (hnil b).symm
  | cons hrest => exact iff_of_false (fun h => nomatch h.1) (hcons hrest _ b _)

/-- A reader that always reports and gives up recognizes nothing. -/
theorem accepts_of_none (h : (x s).1 = none) (hs : s.Told → (x s).2.diagnostics.items ≠ []) :
    Accepts x .never s := by
  refine ⟨fun {a s'} => ⟨fun hx => ?_, fun ⟨_, _, hfalse⟩ => hfalse.elim⟩, fun hs' _ => hs hs'⟩
  rw [hx] at h
  cases h

theorem accepts_fail (span : Span) (e : ParseError) (s : State) :
    Accepts (fail span e : Parse α) .never s :=
  accepts_of_none rfl fun _ => by simp [fail, Diagnostics.push]

theorem accepts_failHere (e : ParseError) (s : State) : Accepts (failHere e : Parse α) .never s :=
  accepts_of_none rfl fun _ => by simp [failHere, fail, Diagnostics.push]

theorem accepts_unexpected (what : String) (s : State) :
    Accepts (unexpected what : Parse α) .never s := by
  refine accepts_of_none ?_ fun hs => ?_
  · unfold unexpected
    split <;> rfl
  · unfold unexpected
    split
    · rename_i e he
      exact hs e he
    · simp [failHere, fail, Diagnostics.push]

theorem Accepts.bind (hx : Accepts x R s)
    (hy : ∀ a ts s', Takes s ts s' → R ts a s'.kind → Accepts (y a) (Q a) s') :
    Accepts (x >>= y) (R.andThen Q) s := by
  refine ⟨fun {b s''} => ⟨fun h => ?_, ?_⟩, fun hs h => ?_⟩
  · cases hxs : x s with
    | mk a s' =>
      cases a with
      | none =>
        rw [bind_of_none hxs] at h
        cases h
      | some a =>
        obtain ⟨us, hus, hR⟩ := hx.some_iff.mp hxs
        rw [bind_of_some hxs] at h
        obtain ⟨vs, hvs, hQ⟩ := (hy a us s' hus hR).some_iff.mp h
        exact ⟨us ++ vs, hus.append hvs, us, vs, a, rfl, hvs.kind ▸ hR, hQ⟩
  · rintro ⟨_, hts, us, vs, a, rfl, hR, hQ⟩
    obtain ⟨s', hus, hvs⟩ := hts.split
    rw [← hvs.kind] at hR
    rw [bind_of_some (hx.some_iff.mpr ⟨us, hus, hR⟩)]
    exact (hy a us s' hus hR).some_iff.mpr ⟨vs, hvs, hQ⟩
  · cases hxs : x s with
    | mk a s' =>
      cases a with
      | none =>
        rw [bind_of_none hxs]
        simpa [hxs] using hx.reports hs (congrArg Prod.fst hxs)
      | some a =>
        obtain ⟨us, hus, hR⟩ := hx.some_iff.mp hxs
        rw [bind_of_some hxs] at h ⊢
        exact (hy a us s' hus hR).reports (hus.told hs) h

theorem Recognizes.bind (hx : Recognizes x R) (hy : ∀ a, Recognizes (y a) (Q a)) :
    Recognizes (x >>= y) (R.andThen Q) :=
  fun s hs => (hx s hs).bind fun a _ s' hts _ => hy a s' (hs.later hts.later)

theorem accepts_look {f : Token → Parse α} (h : Accepts (f s.current) R s) :
    Accepts (look >>= f) R s :=
  ⟨h.some_iff, h.reports⟩

theorem accepts_take (hs : s.EndsIn .eof) (hkind : s.kind ≠ .eof) :
    Accepts take (.token (· = s.current)) s := by
  have hrest : s.rest ≠ [] := fun hnil => hkind (hs.kind_eq hnil)
  refine ⟨fun {t s'} => ⟨fun h => ?_, ?_⟩, fun _ h => nomatch h⟩
  · cases h
    exact ⟨_, .single hrest, rfl, rfl⟩
  · rintro ⟨_, hts, rfl, rfl⟩
    rw [hts.unique (.single hrest)]
    rfl

theorem accepts_advance (hs : s.EndsIn .eof) (hkind : s.kind ≠ .eof) :
    Accepts advance (.skip s.current) s := by
  have htake := accepts_take hs hkind
  refine ⟨fun {_ s'} => ⟨fun h => ?_, ?_⟩, fun _ h => nomatch h⟩
  · cases h
    obtain ⟨ts, hts, rfl, -⟩ := htake.some_iff.mp rfl
    exact ⟨_, hts, rfl⟩
  · rintro ⟨_, hts, rfl⟩
    have heq := htake.some_iff.mpr ⟨_, hts, rfl, rfl⟩
    cases heq
    rfl

theorem accepts_leaf (hs : s.EndsIn .eof) (hkind : s.kind ≠ .eof) (a : α) :
    Accepts (advance >>= fun _ => pure a) (fun ts b _ => ts = [s.current] ∧ b = a) s := by
  refine ((accepts_advance hs hkind).bind fun _ _ s' _ _ => accepts_pure a s').congr
    fun ts b s' _ => ?_
  simp [Language.skip_andThen, Language.value]

/-- A token with a property that the mark of the end does not have. -/
theorem accepts_token {P : Token → Prop} {x : Parse Token} [Decidable (P s.current)]
    (hs : s.EndsIn .eof) (hP : P s.current → s.kind ≠ .eof) (hx : Accepts x .never s) :
    Accepts (if P s.current then take else x) (.token P) s := by
  split_ifs with h
  · refine (accepts_take hs (hP h)).congr fun ts t s' hts => and_congr_right ?_
    rintro rfl
    rw [hts.eq_current]
    simp [h]
  · refine hx.congr fun ts t s' hts => ⟨False.elim, ?_⟩
    rintro ⟨rfl, ht⟩
    exact h (hts.eq_current ▸ ht)

theorem recognizes_expect (kind : TokenKind) (hkind : kind ≠ .eof) :
    Recognizes (expect kind) (.token (·.kind = kind)) := by
  intro s hs
  refine accepts_look (accepts_token (P := fun t => t.kind = kind) hs ?_ (accepts_unexpected _ s))
  intro h heof
  exact hkind (h.symm.trans heof)

theorem isName_iff : isName t = true ↔ IsName t := by
  unfold isName IsName
  split <;> simp_all

theorem isConstant_iff : isConstant t = true ↔ IsConstant t := by
  simp [isConstant, IsConstant]

theorem recognizes_expectName (what : String) : Recognizes (expectName what) (.token IsName) := by
  intro s hs
  have hname : isName s.current = true → s.kind ≠ .eof := by
    intro h heof
    obtain ⟨verbatim, hname⟩ := isName_iff.mp h
    exact TokenKind.noConfusion (hname.symm.trans heof)
  refine accepts_look ?_
  refine (accepts_token (P := fun t => isName t = true) hs hname (accepts_unexpected _ s)).congr ?_
  exact fun ts t _ _ => and_congr_right fun _ => isName_iff

end Combinators

/-! ### Chains -/

section Chains

variable {sign : TokenKind → Arith → Prop} {operator? : TokenKind → Option Arith}
  {operand : List Token → Expr → Prop} {l e : Expr}

/-- What may follow the first operand of a chain, read from left to right. -/
inductive Tail (sign : TokenKind → Arith → Prop) (operand : List Token → Expr → Prop) :
    Expr → List Token → Expr → Prop
  | nil (l : Expr) : Tail sign operand l [] l
  | cons {l r e : Expr} {t : Token} {op : Arith} {us vs : List Token} : sign t.kind op →
    operand us r → Tail sign operand (.arith op l r) vs e → Tail sign operand l (t :: (us ++ vs)) e

theorem Tail.join (h : Tail sign operand l ts e) (ht : sign t.kind op) (hr : operand us r) :
    Tail sign operand l (ts ++ t :: us) (.arith op e r) := by
  induction h with
  | nil l => simpa using Tail.cons ht hr (.nil _)
  | cons ht' hr' _ ih => simpa using Tail.cons ht' hr' ih

theorem Chain.tail (hl : Chain sign operand ls l) (h : Tail sign operand l ts e) :
    Chain sign operand (ls ++ ts) e := by
  induction h generalizing ls with
  | nil l => simpa using hl
  | cons ht hr _ ih => simpa using ih (hl.join ht hr)

theorem chain_iff : Chain sign operand ts e ↔
    ∃ us vs l, ts = us ++ vs ∧ operand us l ∧ Tail sign operand l vs e := by
  constructor
  · intro h
    induction h with
    | single h => exact ⟨_, [], _, (append_nil _).symm, h, .nil _⟩
    | join _ ht hr ih =>
      obtain ⟨us, vs, l, rfl, hl, htail⟩ := ih
      exact ⟨us, _, l, List.append_assoc .., hl, htail.join ht hr⟩
  · rintro ⟨us, vs, l, rfl, hl, htail⟩
    exact Chain.tail (.single hl) htail

theorem chain_nesting_iff :
    Chain sign (fun ts e => operand ts e ∧ e.nesting ≤ depth) ts e ↔
      Chain sign operand ts e ∧ e.nesting ≤ depth := by
  constructor
  · intro h
    induction h with
    | single h => exact ⟨.single h.1, h.2⟩
    | join _ ht hr ih => exact ⟨ih.1.join ht hr.1, Nat.max_le.mpr ⟨ih.2, hr.2⟩⟩
  · rintro ⟨h, hdepth⟩
    induction h with
    | single h => exact .single ⟨h, hdepth⟩
    | join _ ht hr ih =>
      obtain ⟨hl, hr'⟩ := Nat.max_le.mp hdepth
      exact (ih hl).join ht ⟨hr, hr'⟩

/-- The operators are those of a level of signs, which do not include the mark of the end. -/
structure IsLevel (operator? : TokenKind → Option Arith) (sign : TokenKind → Arith → Prop) :
    Prop where
  some_iff : ∀ {k op}, operator? k = some op ↔ sign k op
  eof : operator? .eof = none

theorem isLevel_product : IsLevel productOperator? ProductSign where
  some_iff {k op} := by
    constructor
    · intro h
      unfold productOperator? at h
      split at h <;> cases h <;> constructor
    · rintro (_ | _) <;> rfl
  eof := rfl

theorem isLevel_sum : IsLevel sumOperator? SumSign where
  some_iff {k op} := by
    constructor
    · intro h
      unfold sumOperator? at h
      split at h <;> cases h <;> constructor
    · rintro (_ | _) <;> rfl
  eof := rfl

theorem IsLevel.ne_none_of_sign (h : IsLevel operator? sign) (hsign : sign k op) :
    operator? k ≠ none := by
  rw [h.some_iff.mpr hsign]
  nofun

variable {x : Parse Expr} {follow : TokenKind → Prop}

/-- A sign of the level or, where nothing follows, the end of the chain. -/
theorem Tail.headKind (h : Tail sign operand l ts e) (hsign : ∀ {k op}, sign k op → follow k)
    (hk : follow k) : follow (Parser.headKind ts k) := by
  cases h with
  | nil => exact hk
  | cons ht => exact hsign ht

/-- The operands after the first one are read up to a token that is no operator. -/
theorem accepts_chainFrom (hlevel : IsLevel operator? sign) (hsign : ∀ {k op}, sign k op → follow k)
    (hx : Recognizes x fun ts e k => operand ts e ∧ follow k) (l : Expr) (hs : s.EndsIn .eof)
    (hfuel : s.rest.length ≤ fuel) :
    Accepts (chainFrom x operator? fuel l) (fun ts e k =>
      Tail sign operand l ts e ∧ (ts ≠ [] → follow k) ∧ operator? k = none) s := by
  have hstop {l : Expr} {k : TokenKind} (hk : operator? k = none) (e : Expr) :
      (Tail sign operand l [] e ∧ ([] ≠ ([] : List Token) → follow k) ∧ operator? k = none) ↔
        e = l := by
    constructor
    · rintro ⟨htail, -⟩
      cases htail
      rfl
    · rintro rfl
      exact ⟨.nil e, fun hne => absurd rfl hne, hk⟩
  induction fuel generalizing l s with
  | zero =>
    have hrest : s.rest = [] := length_eq_zero_iff.mp (Nat.le_zero.mp hfuel)
    refine accepts_stop (fun e => hstop ?_ e) fun hne => absurd hrest hne
    rw [hs.kind_eq hrest, hlevel.eof]
  | succ fuel ih =>
    refine accepts_look ?_
    cases hop : operator? s.current.kind with
    | none =>
      refine accepts_stop (fun e => hstop hop e) ?_
      rintro - us e k ⟨htail, -⟩
      cases htail with
      | cons ht => exact hlevel.ne_none_of_sign ht hop
    | some op =>
      have hkind : s.kind ≠ .eof := by
        intro heof
        rw [State.kind] at heof
        rw [heof, hlevel.eof] at hop
        cases hop
      have hjoin := (accepts_advance hs hkind).bind fun _ us s₁ h₁ hus =>
        have hs₁ := hs.later h₁.later
        (hx s₁ hs₁).bind fun r vs s₂ h₂ _ =>
          ih (.arith op l r) (hs₁.later h₂.later)
            (Nat.le_trans h₂.later.length_le (h₁.le_of_single hus hfuel))
      refine hjoin.congr fun ts e s' hts => ?_
      constructor
      · rintro ⟨_, _, -, rfl, rfl, us, vs, r, rfl, ⟨hr, hfollow⟩, htail, hend, hnone⟩
        have hcons : Tail sign operand l (s.current :: (us ++ vs)) e :=
          .cons (hlevel.some_iff.mp hop) hr htail
        refine ⟨hcons, fun _ => ?_, hnone⟩
        cases vs with
        | nil => exact hfollow
        | cons t vs => exact hend (cons_ne_nil t vs)
      · rintro ⟨htail, hend, hnone⟩
        cases htail with
        | nil =>
          have hkind : s.kind = s'.kind := hts.kind
          rw [← hkind] at hnone
          exact absurd (hop.symm.trans hnone) (Option.some_ne_none op)
        | cons ht hr htail =>
          have hk := hend (cons_ne_nil _ _)
          obtain rfl := hts.eq_current
          rw [← hlevel.some_iff, hop, Option.some.injEq] at ht
          subst ht
          exact ⟨[s.current], _, (), rfl, rfl, _, _, _, rfl, ⟨hr, htail.headKind hsign hk⟩, htail,
            fun _ => hk, hnone⟩

/-- **Operands and operators of one level are a chain**, which goes on as long as it can. -/
theorem recognizes_chain (hlevel : IsLevel operator? sign) (hsign : ∀ {k op}, sign k op → follow k)
    (hx : Recognizes x fun ts e k => operand ts e ∧ follow k) :
    Recognizes (chain x operator?) fun ts e k =>
      Chain sign operand ts e ∧ follow k ∧ operator? k = none := by
  have htail (l : Expr) : Recognizes (fun s => chainFrom x operator? s.rest.length l s)
      fun ts e k => Tail sign operand l ts e ∧ (ts ≠ [] → follow k) ∧ operator? k = none := by
    intro s hs
    have h := accepts_chainFrom hlevel hsign hx l hs (Nat.le_refl _)
    exact ⟨h.some_iff, h.reports⟩
  refine (hx.bind htail : Recognizes (chain x operator?) _).congr fun ts e k => ?_
  rw [chain_iff]
  constructor
  · rintro ⟨us, vs, l, rfl, ⟨hl, hfollow⟩, htail, hend, hnone⟩
    refine ⟨⟨us, vs, l, rfl, hl, htail⟩, ?_, hnone⟩
    cases vs with
    | nil => exact hfollow
    | cons t vs => exact hend nofun
  · rintro ⟨⟨us, vs, l, rfl, hl, htail⟩, hfollow, hnone⟩
    exact ⟨us, vs, l, rfl, ⟨hl, htail.headKind hsign hfollow⟩, htail, fun _ => hfollow, hnone⟩

end Chains

end Quantity.Parser
