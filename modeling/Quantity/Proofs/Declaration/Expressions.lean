import Quantity.Proofs.Declaration.Recognizers

/-!
# Expressions are recognized

The first token of a term or a factor says which rule of the grammar it is made by. A reader that goes
by the first token therefore recognizes what the rules make up; how many signs and parentheses it may
still open bounds the nesting. In whole: `recognizes_dimension` and `recognizes_numeral`.
-/

namespace Quantity

open List

/-! ### First tokens -/

namespace Grammar

open Quantity.Parser

variable {t : Token} {ts : List Token} {e : Expr}

theorem IsConstant.isName (h : IsConstant t) : IsName t := ⟨false, h.1⟩

theorem not_dimensionTerm_nil : ¬ DimensionTerm [] e := nofun

theorem dimensionTerm_less (h : t.kind = .less) : DimensionTerm (t :: ts) e ↔
    (∃ c, ts = [c] ∧ c.kind = .greater ∧ e = .magnitude none (t.span.upTo c.span)) ∨
      ∃ name c m, ts = [name, c] ∧ IsName name ∧ Magnitude.ofName? name.value = some m ∧
        c.kind = .greater ∧ e = .magnitude (some m) (t.span.upTo c.span) := by
  constructor
  · intro hterm
    cases hterm with
    | plain _ hc => exact .inl ⟨_, rfl, hc, rfl⟩
    | magnitude _ hname hm hc => exact .inr ⟨_, _, _, rfl, hname, hm, hc, rfl⟩
    | _ => simp_all [IsConstant, IsReference, IsName]
  · rintro (⟨c, rfl, hc, rfl⟩ | ⟨name, c, m, rfl, hname, hm, hc, rfl⟩)
    · exact .plain h hc
    · exact .magnitude h hname hm hc

/-- Nothing but a term of one token begins with it. -/
theorem dimensionTerm_leaf (h : DimensionTerm (t :: us) a) (hus : us = []) :
    DimensionTerm (t :: ts) e ↔ ts = [] ∧ e = a := by
  constructor
  · intro hterm
    cases h <;> cases hterm <;> simp_all [IsConstant, IsReference, IsName]
  · rintro ⟨rfl, rfl⟩
    exact hus ▸ h

theorem dimensionTerm_name (h : IsName t) : DimensionTerm [t]
    (if isConstant t then .literal t.value t.span else .reference t.value t.span) := by
  split_ifs with hconstant
  · exact .constant (isConstant_iff.mp hconstant)
  · exact .reference ⟨h, isConstant_iff.not.mp hconstant⟩

theorem dimensionTerm_group (h : t.kind = .openParen) : DimensionTerm (t :: ts) e ↔
    ∃ us c inner, ts = us ++ [c] ∧ DimensionPhrase us inner ∧ c.kind = .closeParen ∧
      e = .paren inner := by
  constructor
  · intro hterm
    cases hterm with
    | group _ hinner hc => exact ⟨_, _, _, rfl, hinner, hc, rfl⟩
    | _ => simp_all [IsConstant, IsReference, IsName]
  · rintro ⟨us, c, inner, rfl, hinner, hc, rfl⟩
    exact .group h hinner hc

theorem DimensionTerm.kind (h : DimensionTerm (t :: ts) e) : t.kind = .less ∨ t.kind = .number ∨
    t.kind = .string ∨ IsName t ∨ t.kind = .openParen := by
  cases h <;> simp_all [IsConstant, IsReference, IsName]

theorem not_factor_nil : ¬ Factor [] e := nofun

theorem factor_sign (h : t.kind = .plus ∨ t.kind = .minus) : Factor (t :: ts) e ↔
    ∃ inner, Factor ts inner ∧ e = .signed (t.kind = .minus) inner := by
  constructor
  · intro hfactor
    cases hfactor with
    | positive ht hinner => exact ⟨_, hinner, by simp [ht]⟩
    | negative ht hinner => exact ⟨_, hinner, by simp [ht]⟩
    | ofUnit ht =>
      obtain ⟨⟨verbatim, hname⟩, -⟩ := ht
      simp [hname] at h
    | _ => simp_all [IsConstant]
  · rintro ⟨inner, hinner, rfl⟩
    obtain h | h := h
    · simpa [h] using Factor.positive h hinner
    · simpa [h] using Factor.negative h hinner

/-- Nothing but a factor of one token begins with it. -/
theorem factor_leaf (h : Factor (t :: us) a) (hus : us = []) :
    Factor (t :: ts) e ↔ ts = [] ∧ e = a := by
  constructor
  · intro hfactor
    cases h <;> cases hfactor <;> simp_all [IsConstant, IsReference, IsName, not_factor_nil]
  · rintro ⟨rfl, rfl⟩
    exact hus ▸ h

theorem factor_reference (h : IsReference t) : Factor (t :: ts) e ↔
    ∃ dot property, ts = [dot, property] ∧ dot.kind = .dot ∧ IsName property ∧
      property.value = "Factor" ∧ e = .reference t.value (t.span.upTo property.span) := by
  constructor
  · intro hfactor
    obtain ⟨⟨v, hv⟩, hconstant⟩ := h
    cases hfactor with
    | ofUnit _ hdot hname hvalue => exact ⟨_, _, rfl, hdot, hname, hvalue, rfl⟩
    | constant hconstant' => contradiction
    | _ => simp_all
  · rintro ⟨dot, property, rfl, hdot, hname, hvalue, rfl⟩
    exact .ofUnit h hdot hname hvalue

theorem factor_group (h : t.kind = .openParen) : Factor (t :: ts) e ↔
    ∃ us c inner, ts = us ++ [c] ∧ NumeralPhrase us inner ∧ c.kind = .closeParen ∧
      e = .paren inner := by
  constructor
  · intro hfactor
    cases hfactor with
    | group _ hinner hc => exact ⟨_, _, _, rfl, hinner, hc, rfl⟩
    | _ => simp_all [IsConstant, IsReference, IsName]
  · rintro ⟨us, c, inner, rfl, hinner, hc, rfl⟩
    exact .group h hinner hc

theorem Factor.kind (h : Factor (t :: ts) e) : t.kind = .plus ∨ t.kind = .minus ∨
    t.kind = .number ∨ t.kind = .string ∨ IsName t ∨ t.kind = .openParen := by
  cases h <;> simp_all [IsConstant, IsReference, IsName]

end Grammar

namespace Parser

open Grammar

variable {s : State}

/-! ### Dimension expressions -/

/-- What is between the angle brackets of a magnitude, and the closing one. -/
def MagnitudeBody (start : Token) (ts : List Token) (e : Expr) : Prop :=
  (∃ c, ts = [c] ∧ c.kind = .greater ∧ e = .magnitude none (start.span.upTo c.span)) ∨
    ∃ name c m, ts = [name, c] ∧ IsName name ∧ Magnitude.ofName? name.value = some m ∧
      c.kind = .greater ∧ e = .magnitude (some m) (start.span.upTo c.span)

theorem accepts_magnitude (hs : s.EndsIn .eof) (hkind : s.kind = .less) :
    Accepts magnitude (fun ts e _ => DimensionTerm ts e) s := by
  have hne : s.kind ≠ .eof := hkind ▸ nofun
  have hclose (start : Token) (m : Option Magnitude) : Recognizes
      (expect .greater >>= fun stop => pure (Expr.magnitude m (start.span.upTo stop.span))) _ :=
    (recognizes_expect .greater nofun).bind fun stop s _ => accepts_pure _ s
  have hbody : Accepts magnitude (Language.andThen (.token (· = s.current))
      fun start ts e _ => MagnitudeBody start ts e) s := by
    refine (accepts_take hs hne).bind fun start _ s₁ h₁ _ => accepts_look ?_
    have hs₁ := hs.later h₁.later
    split_ifs with hgreater
    · have hplain := (accepts_pure none s₁).bind fun m _ s₂ h₂ _ =>
        hclose start m s₂ (hs₁.later h₂.later)
      refine hplain.congr_head (fun e k => ?_) fun us e k => ?_
      · simp [Language.value_andThen, Language.token_andThen, MagnitudeBody]
      · simp [Language.value_andThen, Language.token_andThen, Language.value, MagnitudeBody, IsName,
          hgreater]
    · refine Accepts.congr (R := Language.andThen (.token IsName) fun name ts e _ =>
          ∃ m c, Magnitude.ofName? name.value = some m ∧ ts = [c] ∧ c.kind = .greater ∧
            e = Expr.magnitude (some m) (start.span.upTo c.span)) ?_ fun ts e s' hts => ?_
      · refine (recognizes_expectName _ s₁ hs₁).bind fun name _ s₂ h₂ _ => ?_
        cases Magnitude.ofName? name.value with
        | none =>
          refine ((accepts_fail _ _ s₂).bind fun m _ s₃ h₃ _ =>
            hclose start m s₃ (hs₁.later (h₂.later.trans h₃.later))).congr fun ts e s' _ => ?_
          simp [Language.never_andThen]
        | some m =>
          refine ((accepts_pure (some m) s₂).bind fun m _ s₃ h₃ _ =>
            hclose start m s₃ (hs₁.later (h₂.later.trans h₃.later))).congr fun ts e s' _ => ?_
          simp [Language.value_andThen, Language.token_andThen, Language.value]
      · rw [Language.token_andThen]
        constructor
        · rintro ⟨name, _, rfl, hname, m, c, hm, rfl, hc, rfl⟩
          exact .inr ⟨name, c, m, rfl, hname, hm, hc, rfl⟩
        · rintro (⟨c, rfl, hc, -⟩ | ⟨name, c, m, rfl, hname, hm, hc, rfl⟩)
          · exact absurd (hts.eq_current ▸ hc) hgreater
          · exact ⟨name, _, rfl, hname, m, c, hm, rfl, hc, rfl⟩
  refine hbody.congr_head (fun e k => ?_) fun us e k => ?_
  · simp [Language.token_andThen, not_dimensionTerm_nil]
  · simp [Language.token_andThen, dimensionTerm_less hkind, MagnitudeBody]

/-- What stands between parentheses is recognized up to the closing one. -/
theorem accepts_parenthesized {R : List Token → Expr → Prop} {F : TokenKind → Prop}
    (hx : Recognizes x fun ts e k => R ts e ∧ F k) (hF : F .closeParen) (hs : s.EndsIn .eof)
    (hkind : s.kind = .openParen) :
    Accepts (parenthesized x) (fun ts e _ => ∃ us c inner, ts = s.current :: (us ++ [c]) ∧
      R us inner ∧ c.kind = .closeParen ∧ e = .paren inner) s := by
  have hne : s.kind ≠ .eof := hkind ▸ nofun
  have hread := (accepts_advance hs hne).bind fun _ _ s₁ h₁ _ =>
    (hx.bind fun e => (recognizes_expect .closeParen nofun).bind
      fun _ s _ => accepts_pure (Expr.paren e) s) s₁ (hs.later h₁.later)
  refine hread.congr fun ts e s' _ => ?_
  constructor
  · rintro ⟨_, _, -, rfl, rfl, us, _, inner, rfl, ⟨hinner, -⟩, _, _, c, rfl, ⟨rfl, hc⟩, rfl, rfl⟩
    exact ⟨us, c, inner, rfl, hinner, hc, rfl⟩
  · rintro ⟨us, c, inner, rfl, hinner, hc, rfl⟩
    have hfollow : F (headKind [c] s'.kind) := by rwa [headKind_cons, hc]
    exact ⟨[s.current], _, (), rfl, rfl, us, [c], inner, rfl, ⟨hinner, hfollow⟩, [c], [], c, rfl,
      ⟨rfl, hc⟩, rfl, rfl⟩

theorem kind_ne_eof (h : s.current.kind = kind) (hne : kind ≠ .eof) : s.kind ≠ .eof := by
  rwa [State.kind, h]

section Terms

variable {R P : List Token → Expr → Prop} {F : TokenKind → Prop} {x : Parse Expr} {e : Expr}
  (hnil : ∀ a, ¬ R [] a)
include hnil

/-- A term of one token is not too deep. -/
theorem accepts_term (hs : s.EndsIn .eof) (hkind : s.kind ≠ .eof) (he : e.nesting = 0)
    (h : ∀ us a, R (s.current :: us) a ↔ us = [] ∧ a = e) :
    Accepts (advance >>= fun _ => pure e) (fun ts a _ => R ts a ∧ a.nesting ≤ depth) s := by
  refine (accepts_leaf hs hkind e).congr_head (fun a _ => ?_) fun us a _ => ?_
  · simp [hnil]
  · rw [h, List.cons.injEq, eq_self, true_and]
    refine (and_iff_left_of_imp ?_).symm
    rintro ⟨-, rfl⟩
    omega

theorem Accepts.no_term (hx : Accepts x .never s) (h : ∀ us a, ¬ R (s.current :: us) a) :
    Accepts x (fun ts a _ => R ts a) s :=
  hx.congr_head (fun a _ => iff_of_false id (hnil a)) fun us a _ => iff_of_false id (h us a)

theorem accepts_tooDeep (h : ∀ us a, R (s.current :: us) a → 0 < a.nesting) :
    Accepts (failHere .tooDeep) (fun ts a _ => R ts a ∧ a.nesting ≤ 0) s :=
  (accepts_failHere _ s).no_term (fun a ha => hnil a ha.1)
    fun us a ha => Nat.not_le_of_lt (h us a ha.1) ha.2

theorem accepts_group (hx : Recognizes x fun ts e k => (P ts e ∧ e.nesting ≤ depth) ∧ F k)
    (hF : F .closeParen) (hs : s.EndsIn .eof) (hkind : s.kind = .openParen)
    (h : ∀ us e, R (s.current :: us) e ↔ ∃ vs c inner, us = vs ++ [c] ∧ P vs inner ∧
      c.kind = .closeParen ∧ e = .paren inner) :
    Accepts (parenthesized x) (fun ts e _ => R ts e ∧ e.nesting ≤ depth + 1) s := by
  refine (accepts_parenthesized hx hF hs hkind).congr_head (fun e k => ?_) fun us e k => ?_
  · simp [hnil]
  · rw [h]
    constructor
    · rintro ⟨vs, c, inner, hvs, ⟨hinner, hdepth⟩, hc, rfl⟩
      exact ⟨⟨vs, c, inner, tail_eq_of_cons_eq hvs, hinner, hc, rfl⟩, Nat.succ_le_succ hdepth⟩
    · rintro ⟨⟨vs, c, inner, rfl, hinner, hc, rfl⟩, hdepth⟩
      exact ⟨vs, c, inner, rfl, ⟨hinner, Nat.le_of_succ_le_succ hdepth⟩, hc, rfl⟩

end Terms

def DimensionTermWithin (depth : Nat) (ts : List Token) (e : Expr) : Prop :=
  DimensionTerm ts e ∧ e.nesting ≤ depth

theorem recognizes_dimensionTermWith
    (hgroup : ∀ s, s.EndsIn .eof → s.kind = .openParen →
      Accepts group (fun ts e _ => DimensionTermWithin depth ts e) s) :
    Recognizes (dimensionTermWith group) fun ts e _ => DimensionTermWithin depth ts e := by
  intro s hs
  have hnil (e : Expr) : ¬ DimensionTermWithin depth [] e := fun h => not_dimensionTerm_nil h.1
  have hleaf {e : Expr} (he : DimensionTerm [s.current] e) (hnesting : e.nesting = 0)
      (hkind : s.kind ≠ .eof) :
      Accepts (advance >>= fun _ => pure e) (fun ts a _ => DimensionTermWithin depth ts a) s :=
    accepts_term (fun _ => not_dimensionTerm_nil) hs hkind hnesting
      fun _ _ => dimensionTerm_leaf he rfl
  refine accepts_look ?_
  cases h : s.current.kind with
  | less =>
    refine (accepts_magnitude hs h).congr_head (fun e k => ?_) fun us e k => ?_
    · simp [not_dimensionTerm_nil, DimensionTermWithin]
    · refine (and_iff_left_of_imp fun hterm => ?_).symm
      obtain ⟨c, -, -, rfl⟩ | ⟨name, c, m, -, -, -, -, rfl⟩ := (dimensionTerm_less h).mp hterm <;>
        exact Nat.zero_le _
  | number => exact hleaf (.number h) rfl (kind_ne_eof h nofun)
  | string => exact hleaf (.string h) rfl (kind_ne_eof h nofun)
  | identifier verbatim =>
    refine hleaf (dimensionTerm_name ⟨verbatim, h⟩) ?_ (kind_ne_eof h nofun)
    split_ifs <;> rfl
  | openParen => exact hgroup s hs h
  | caret =>
    refine (accepts_failHere _ s).no_term hnil fun us e hterm => ?_
    simpa [h, IsName] using hterm.1.kind
  | _ =>
    refine (accepts_unexpected _ s).no_term hnil fun us e hterm => ?_
    simpa [h, IsName] using hterm.1.kind

theorem recognizes_product (hx : Recognizes x fun ts e _ => R ts e) :
    Recognizes (chain x productOperator?) fun ts e k =>
      Chain ProductSign R ts e ∧ productOperator? k = none := by
  have hx' : Recognizes x fun ts e _ => R ts e ∧ True := by simpa using hx
  refine (recognizes_chain isLevel_product (fun _ => trivial) hx').congr fun ts e k => ?_
  rw [true_and]

/-- A token behind which no dimension expression goes on. -/
def EndsDimension (k : TokenKind) : Prop := productOperator? k = none ∧ k ≠ .caret

theorem recognizes_dimensionOf (hx : Recognizes x fun ts e _ => DimensionTermWithin depth ts e) :
    Recognizes (dimensionOf x) fun ts e k =>
      (DimensionPhrase ts e ∧ e.nesting ≤ depth) ∧ EndsDimension k := by
  have hcaret (e : Expr) : Recognizes
      (look >>= fun t => if t.kind = .caret then failHere .caret else pure e)
      fun ts a k => (ts = [] ∧ a = e) ∧ k ≠ .caret := by
    intro s _
    refine accepts_look ?_
    split_ifs with h
    · refine (accepts_failHere _ s).congr fun ts a s' hts => iff_of_false id ?_
      rintro ⟨⟨rfl, -⟩, hne⟩
      exact hne (hts.kind.symm.trans h)
    · refine (accepts_pure e s).congr fun ts a s' hts => (and_iff_left_of_imp ?_).symm
      rintro ⟨rfl, -⟩ hcaret
      exact h (hts.kind.trans hcaret)
  refine ((recognizes_product hx).bind hcaret).congr fun ts e k => ?_
  rw [DimensionPhrase, ← chain_nesting_iff]
  constructor
  · rintro ⟨us, _, a, rfl, ⟨ha, hnone⟩, ⟨rfl, rfl⟩, hne⟩
    rw [append_nil]
    exact ⟨ha, hnone, hne⟩
  · rintro ⟨he, hnone, hne⟩
    exact ⟨ts, [], e, (append_nil ts).symm, ⟨he, hnone⟩, ⟨rfl, rfl⟩, hne⟩

theorem recognizes_dimensionTerm (depth : Nat) :
    Recognizes (dimensionTermWithin depth) fun ts e _ => DimensionTermWithin depth ts e := by
  induction depth with
  | zero =>
    refine recognizes_dimensionTermWith fun s hs hkind =>
      accepts_tooDeep (fun _ => not_dimensionTerm_nil) fun us e hterm => ?_
    obtain ⟨_, _, inner, -, -, -, rfl⟩ := (dimensionTerm_group hkind).mp hterm
    exact Nat.succ_pos _
  | succ depth ih =>
    exact recognizes_dimensionTermWith fun s hs hkind =>
      accepts_group (fun _ => not_dimensionTerm_nil) (recognizes_dimensionOf ih) ⟨rfl, nofun⟩ hs hkind
        fun _ _ => dimensionTerm_group hkind

/-- **Dimension expressions are recognized**, up to a token that does not go on with them. -/
theorem recognizes_dimension (depth : Nat) : Recognizes (dimensionWithin depth) fun ts e k =>
    (DimensionPhrase ts e ∧ e.nesting ≤ depth) ∧ EndsDimension k :=
  recognizes_dimensionOf (recognizes_dimensionTerm depth)

/-! ### Numeral expressions -/

def FactorWithin (depth : Nat) (ts : List Token) (e : Expr) : Prop :=
  Factor ts e ∧ e.nesting ≤ depth

theorem accepts_unitFactor (ht : IsReference t) (hs : s.EndsIn .eof) :
    Accepts (unitFactor t) (fun ts e _ => Factor (t :: ts) e) s := by
  have hproperty (property : Token) (s : State) : Accepts
      (if property.value = "Factor" then
        pure (Expr.reference t.value (t.span.upTo property.span))
      else fail property.span (.unknownProperty t.value property.value))
      (fun ts e _ => ts = [] ∧ property.value = "Factor" ∧
        e = .reference t.value (t.span.upTo property.span)) s := by
    split_ifs with h
    · exact (accepts_pure _ s).congr fun ts e _ _ => by simp [Language.value, h]
    · exact (accepts_fail _ _ s).congr fun ts e _ _ => by simp [Language.never, h]
  have hread := ((recognizes_expect .dot (by decide)).bind fun _ =>
    (recognizes_expectName "'Factor'").bind fun property s _ => hproperty property s) s hs
  refine hread.congr fun ts e s' _ => ?_
  simp only [Language.token_andThen, factor_reference ht]
  constructor
  · rintro ⟨dot, _, rfl, hdot, property, _, rfl, hname, rfl, hvalue, rfl⟩
    exact ⟨dot, property, rfl, hdot, hname, hvalue, rfl⟩
  · rintro ⟨dot, property, rfl, hdot, hname, hvalue, rfl⟩
    exact ⟨dot, _, rfl, hdot, property, _, rfl, hname, rfl, hvalue, rfl⟩

theorem accepts_signed {R : List Token → Expr → Prop} (hx : Recognizes x fun ts e _ => R ts e)
    (hs : s.EndsIn .eof) (hkind : s.kind ≠ .eof) :
    Accepts (signed x) (fun ts e _ => ∃ us inner, ts = s.current :: us ∧ R us inner ∧
      e = .signed (s.kind = .minus) inner) s := by
  have hread := (accepts_take hs hkind).bind fun sign _ s₁ h₁ _ =>
    (hx.bind fun e s _ => accepts_pure (Expr.signed (sign.kind = .minus) e) s) s₁ (hs.later h₁.later)
  refine hread.congr fun ts e s' _ => ?_
  rw [Language.token_andThen]
  constructor
  · rintro ⟨_, _, rfl, rfl, us, _, inner, rfl, hinner, rfl, rfl⟩
    exact ⟨us, inner, by rw [append_nil], hinner, rfl⟩
  · rintro ⟨us, inner, rfl, hinner, rfl⟩
    exact ⟨_, us, rfl, rfl, us, [], inner, (append_nil us).symm, hinner, rfl, rfl⟩

theorem recognizes_numeralFactorWith
    (hsign : ∀ s, s.EndsIn .eof → s.kind = .plus ∨ s.kind = .minus →
      Accepts sign (fun ts e _ => FactorWithin depth ts e) s)
    (hgroup : ∀ s, s.EndsIn .eof → s.kind = .openParen →
      Accepts group (fun ts e _ => FactorWithin depth ts e) s) :
    Recognizes (numeralFactorWith sign group) fun ts e _ => FactorWithin depth ts e := by
  intro s hs
  have hnil (e : Expr) : ¬ FactorWithin depth [] e := fun h => not_factor_nil h.1
  have hleaf {e : Expr} (he : Factor [s.current] e) (hnesting : e.nesting = 0)
      (hkind : s.kind ≠ .eof) :
      Accepts (advance >>= fun _ => pure e) (fun ts a _ => FactorWithin depth ts a) s :=
    accepts_term (fun _ => not_factor_nil) hs hkind hnesting fun _ _ => factor_leaf he rfl
  refine accepts_look ?_
  cases h : s.current.kind with
  | plus => exact hsign s hs (.inl h)
  | minus => exact hsign s hs (.inr h)
  | number => exact hleaf (.number h) rfl (kind_ne_eof h nofun)
  | string => exact hleaf (.string h) rfl (kind_ne_eof h nofun)
  | identifier verbatim =>
    by_cases hconstant : isConstant s.current = true
    · simp only [hconstant]
      exact hleaf (.constant (isConstant_iff.mp hconstant)) rfl (kind_ne_eof h nofun)
    · have hreference : IsReference s.current := ⟨⟨verbatim, h⟩, isConstant_iff.not.mp hconstant⟩
      simp only [hconstant]
      refine ((accepts_advance hs (kind_ne_eof h nofun)).bind fun _ _ s₁ h₁ _ =>
        accepts_unitFactor hreference (hs.later h₁.later)).congr_head (fun e k => ?_) fun us e k => ?_
      · simp [Language.skip_andThen, hnil]
      · simp only [Language.skip_andThen, List.cons.injEq, true_and, exists_eq_left']
        refine (and_iff_left_of_imp fun hfactor => ?_).symm
        obtain ⟨_, _, -, -, -, -, rfl⟩ := (factor_reference hreference).mp hfactor
        exact Nat.zero_le _
  | openParen => exact hgroup s hs h
  | _ =>
    refine (accepts_unexpected _ s).no_term hnil fun us e hfactor => ?_
    simpa [h, IsName] using hfactor.1.kind

/-- A token behind which no numeral expression goes on. -/
def EndsNumeral (k : TokenKind) : Prop := productOperator? k = none ∧ sumOperator? k = none

theorem recognizes_numeralOf (hx : Recognizes x fun ts e _ => FactorWithin depth ts e) :
    Recognizes (numeralOf x) fun ts e k =>
      (NumeralPhrase ts e ∧ e.nesting ≤ depth) ∧ EndsNumeral k := by
  have hproduct : Chain ProductSign (FactorWithin depth) =
      fun ts e => Chain ProductSign Factor ts e ∧ e.nesting ≤ depth := by
    funext ts e
    exact propext chain_nesting_iff
  refine (recognizes_chain isLevel_sum ?_ (recognizes_product hx)).congr fun ts e k => ?_
  · rintro k op (_ | _) <;> rfl
  · rw [hproduct, chain_nesting_iff]
    rfl

theorem recognizes_numeralFactor (depth : Nat) :
    Recognizes (numeralFactorWithin depth) fun ts e _ => FactorWithin depth ts e := by
  induction depth with
  | zero =>
    refine recognizes_numeralFactorWith
      (fun s hs hkind => accepts_tooDeep (fun _ => not_factor_nil) fun us e hfactor => ?_)
      fun s hs hkind => accepts_tooDeep (fun _ => not_factor_nil) fun us e hfactor => ?_
    · obtain ⟨inner, -, rfl⟩ := (factor_sign hkind).mp hfactor
      exact Nat.succ_pos _
    · obtain ⟨_, _, inner, -, -, -, rfl⟩ := (factor_group hkind).mp hfactor
      exact Nat.succ_pos _
  | succ depth ih =>
    refine recognizes_numeralFactorWith (fun s hs hkind => ?_) fun s hs hkind =>
      accepts_group (fun _ => not_factor_nil) (recognizes_numeralOf ih) ⟨rfl, rfl⟩ hs hkind
        fun _ _ => factor_group hkind
    have hne : s.kind ≠ .eof := by rcases hkind with h | h <;> rw [h] <;> nofun
    refine (accepts_signed ih hs hne).congr_head (fun e k => ?_) fun us e k => ?_
    · simp [not_factor_nil, FactorWithin]
    · rw [FactorWithin, factor_sign hkind]
      constructor
      · rintro ⟨us, inner, hus, ⟨hinner, hdepth⟩, rfl⟩
        rw [tail_eq_of_cons_eq hus]
        exact ⟨⟨inner, hinner, rfl⟩, Nat.succ_le_succ hdepth⟩
      · rintro ⟨⟨inner, hinner, rfl⟩, hdepth⟩
        exact ⟨us, inner, rfl, ⟨hinner, Nat.le_of_succ_le_succ hdepth⟩, rfl⟩

/-- **Numeral expressions are recognized**, up to a token that does not go on with them. -/
theorem recognizes_numeral (depth : Nat) : Recognizes (numeralWithin depth) fun ts e k =>
    (NumeralPhrase ts e ∧ e.nesting ≤ depth) ∧ EndsNumeral k :=
  recognizes_numeralOf (recognizes_numeralFactor depth)

end Parser

end Quantity
