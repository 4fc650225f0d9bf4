import Quantity.Proofs.Declaration.Expressions

/-!
# Declarations are recognized

A clause of a declaration that may be absent is told by its first token, and a loop over tags or
further definitions ends with a token that does not go on with it. Such conditions on what follows
are met inside a declaration, so that a declaration is recognized whatever comes after its semicolon:
`accepts_unitDeclaration` and `accepts_scaleDeclaration`.
-/

namespace Quantity

open List

theorem NumericKind.ofKeyword?_eq_some_iff :
    ofKeyword? word = some kind ↔ word.toList.map Char.toLower = kind.keyword.toList := by
  have hword (w : String) : String.ofList (word.toList.map Char.toLower) = w ↔
      word.toList.map Char.toLower = w.toList := by
    rw [← String.toList_inj, String.toList_ofList]
  simp only [ofKeyword?, hword]
  cases kind <;> split_ifs <;> simp_all [keyword]

namespace Parser

open Grammar

variable {α : Type} {s : State}

/-! ### Clauses -/

/-- A clause that may be absent, and otherwise begins with a token of certain kinds. -/
structure IsClause (first : TokenKind → Prop) (R : List Token → Option α → Prop) : Prop where
  none_iff : ∀ {ts}, R ts none ↔ ts = []
  head : ∀ {ts a}, R ts (some a) → ∃ t us, ts = t :: us ∧ first t.kind

theorem IsClause.accepts (h : IsClause first R) [Decidable c] (hc : c ↔ first s.kind)
    (hx : c → Accepts x (fun ts a _ => R ts a ∧ a ≠ none) s) :
    Accepts (if c then x else pure none) (fun ts a k => R ts a ∧ (a = none → ¬ first k)) s := by
  split_ifs with hfirst
  · refine (hx hfirst).congr fun ts a s' hts => and_congr_right fun hR => ?_
    refine ⟨fun hne hnone => absurd hnone hne, ?_⟩
    rintro hnot rfl
    obtain rfl := h.none_iff.mp hR
    cases hts
    exact hnot rfl (hc.mp hfirst)
  · have hnone : first s.kind → False := fun hk => hfirst (hc.mpr hk)
    refine accepts_stop (fun a => ⟨?_, ?_⟩) ?_
    · rintro ⟨hR, -⟩
      cases a with
      | none => rfl
      | some a =>
        obtain ⟨t, us, hnil, -⟩ := h.head hR
        cases hnil
    · rintro rfl
      exact ⟨h.none_iff.mpr rfl, fun _ => hnone⟩
    · rintro - us a k ⟨hR, -⟩
      cases a with
      | none => cases h.none_iff.mp hR
      | some a =>
        obtain ⟨t, _, hcons, ht⟩ := h.head hR
        obtain ⟨rfl, -⟩ := List.cons.inj hcons
        exact hnone ht

theorem isClause_kind : IsClause (· = .less) KindClause where
  none_iff {ts} := ⟨fun h => by cases h; rfl, fun h => h ▸ .absent⟩
  head h := by
    cases h with
    | present ho => exact ⟨_, _, rfl, ho⟩

theorem isClause_format : IsClause (· = .colon) FormatClause where
  none_iff {ts} := ⟨fun h => by cases h; rfl, fun h => h ▸ .absent⟩
  head h := by
    cases h with
    | present hcolon => exact ⟨_, _, rfl, hcolon⟩

theorem isClause_refPoint : IsClause (fun k => ∃ verbatim, k = .identifier verbatim) RefPoint where
  none_iff {ts} := ⟨fun h => by cases h; rfl, fun h => h ▸ .absent⟩
  head h := by
    cases h with
    | present ht => exact ⟨_, _, rfl, ht⟩

theorem recognizes_kindClause : Recognizes kindClause fun ts kind k =>
    KindClause ts kind ∧ (kind = none → k ≠ .less) := by
  intro s hs
  refine accepts_look (isClause_kind.accepts Iff.rfl fun h => ?_)
  have hword {y : Parse (Option NumericKind)} (word : Token)
      (hnone : NumericKind.ofKeyword? word.value = none →
        y = fail word.span (.unknownKind word.value))
      (hsome : ∀ kind, NumericKind.ofKeyword? word.value = some kind →
        y = expect .greater >>= fun _ => pure (some kind)) :
      Recognizes y fun ts kind _ => ∃ kind' c, ts = [c] ∧ c.kind = .greater ∧
        kind = some kind' ∧ word.value.toList.map Char.toLower = kind'.keyword.toList := by
    intro s hs
    simp only [← NumericKind.ofKeyword?_eq_some_iff]
    cases hkind : NumericKind.ofKeyword? word.value with
    | none =>
      rw [hnone hkind]
      exact (accepts_fail _ _ s).congr fun ts a _ _ => by simp [Language.never]
    | some kind =>
      rw [hsome kind hkind]
      refine (((recognizes_expect .greater (by decide)).bind fun _ s _ =>
        accepts_pure (some kind) s) s hs).congr fun ts a _ _ => ?_
      rw [Language.token_andThen]
      constructor
      · rintro ⟨c, _, rfl, hc, rfl, rfl⟩
        exact ⟨kind, c, rfl, hc, rfl, rfl⟩
      · rintro ⟨_, c, rfl, hc, rfl, hkind⟩
        exact ⟨c, [], rfl, hc, rfl, hkind.symm⟩
  refine ((accepts_advance hs (kind_ne_eof h (by decide))).bind fun _ _ s₁ h₁ _ =>
    ((recognizes_expectName "numeric type").bind fun word =>
      hword word (fun hkind => ?_) fun kind hkind => ?_)
      s₁ (hs.later h₁.later)).congr fun ts kind s' hts => ?_
  · rw [hkind]
  · rw [hkind]
  simp only [Language.skip_andThen, Language.token_andThen]
  constructor
  · rintro ⟨_, rfl, word, _, rfl, hname, kind, c, rfl, hc, rfl, hkind⟩
    exact ⟨.present h hname hkind hc, fun hnone => absurd hnone (Option.some_ne_none kind)⟩
  · rintro ⟨hclause, hne⟩
    cases hclause with
    | absent => contradiction
    | present _ hname hkind hc =>
      exact ⟨_, congrArg (· :: _) hts.eq_current, _, _, rfl, hname, _, _, rfl, hc, rfl, hkind⟩

theorem recognizes_formatClause : Recognizes formatClause fun ts format k =>
    FormatClause ts format ∧ (format = none → k ≠ .colon) := by
  intro s hs
  refine accepts_look (isClause_format.accepts Iff.rfl fun h => ?_)
  have hread := (accepts_advance hs (kind_ne_eof h nofun)).bind fun _ _ s₁ h₁ _ =>
    ((recognizes_expect .string nofun).bind fun t s _ =>
      accepts_pure (some t.value) s) s₁ (hs.later h₁.later)
  refine hread.congr fun ts format s' hts => ?_
  simp only [Language.skip_andThen, Language.token_andThen]
  constructor
  · rintro ⟨_, rfl, t, _, rfl, ht, rfl, rfl⟩
    exact ⟨.present h ht, nofun⟩
  · rintro ⟨hclause, hne⟩
    cases hclause with
    | absent => contradiction
    | present _ ht => exact ⟨_, congrArg (· :: _) hts.eq_current, _, _, rfl, ht, rfl, rfl⟩

theorem recognizes_refPointClause : Recognizes refPointClause fun ts point k =>
    RefPoint ts point ∧ (point = none → ¬ ∃ verbatim, k = .identifier verbatim) := by
  intro s hs
  refine accepts_look (isClause_refPoint.accepts isName_iff fun h => ?_)
  obtain ⟨verbatim, hname⟩ := isName_iff.mp h
  have hread := (accepts_take hs (kind_ne_eof hname nofun)).bind fun t _ s₁ h₁ _ =>
    accepts_pure (some t.value) s₁
  refine hread.congr fun ts point s' hts => ?_
  rw [Language.token_andThen]
  constructor
  · rintro ⟨_, _, rfl, rfl, rfl, rfl⟩
    exact ⟨.present ⟨verbatim, hname⟩, nofun⟩
  · rintro ⟨hclause, hne⟩
    cases hclause with
    | absent => contradiction
    | present => exact ⟨_, _, rfl, hts.eq_current, rfl, rfl⟩

theorem accepts_tags (hs : s.EndsIn .eof) (hfuel : s.rest.length ≤ fuel) :
    Accepts (tags fuel) (fun ts found k => Tags ts found ∧ k ≠ .string) s := by
  have hstop {k : TokenKind} (hk : k ≠ .string) (found : List String) :
      Tags [] found ∧ k ≠ .string ↔ found = [] := by
    refine ⟨fun ⟨htags, _⟩ => ?_, ?_⟩
    · cases htags
      rfl
    · rintro rfl
      exact ⟨.nil, hk⟩
  induction fuel generalizing s with
  | zero =>
    have hrest : s.rest = [] := length_eq_zero_iff.mp (Nat.le_zero.mp hfuel)
    refine accepts_stop (hstop ?_) fun hne => absurd hrest hne
    rw [hs.kind_eq hrest]
    nofun
  | succ fuel ih =>
    refine accepts_look ?_
    split_ifs with h
    · have hread := (accepts_advance hs (kind_ne_eof h nofun)).bind fun _ us s₁ h₁ hus =>
        (ih (hs.later h₁.later) (h₁.le_of_single hus hfuel)).bind fun more _ s₂ _ _ =>
          accepts_pure (s.current.value :: more) s₂
      refine hread.congr fun ts found s' hts => ?_
      rw [Language.skip_andThen]
      constructor
      · rintro ⟨_, rfl, us, _, more, rfl, ⟨htags, hne⟩, rfl, rfl⟩
        rw [append_nil]
        exact ⟨.cons h htags, hne⟩
      · rintro ⟨htags, hne⟩
        cases htags with
        | nil => exact absurd (hts.kind.symm.trans h) hne
        | cons _ htags =>
          obtain rfl := hts.eq_current
          exact ⟨_, rfl, _, [], _, (append_nil _).symm, ⟨htags, hne⟩, rfl, rfl⟩
    · refine accepts_stop (hstop h) ?_
      rintro - us found k ⟨htags, -⟩
      cases htags with
      | cons ht => exact h ht

theorem recognizes_someTags : Recognizes someTags fun ts found k =>
    (Tags ts found ∧ found ≠ []) ∧ k ≠ .string := by
  have hloop : Recognizes (fun s => tags s.rest.length s)
      fun ts found k => Tags ts found ∧ k ≠ .string := by
    intro s hs
    have htags := accepts_tags hs (Nat.le_refl _)
    exact ⟨htags.some_iff, htags.reports⟩
  have hsome (found : List String) : Recognizes
      (if found.isEmpty then unexpected "symbol tag (string literal)" else pure found)
      fun ts a _ => ts = [] ∧ a = found ∧ found ≠ [] := by
    intro s _
    split_ifs with h
    · refine (accepts_unexpected _ s).congr fun ts a _ _ => iff_of_false id ?_
      exact fun ⟨_, _, hne⟩ => hne (isEmpty_iff.mp h)
    · refine (accepts_pure found s).congr fun ts a _ _ => ?_
      simp [Language.value, isEmpty_iff.not.mp h]
  refine (hloop.bind hsome).congr fun ts found k => ?_
  constructor
  · rintro ⟨us, _, _, rfl, ⟨htags, hk⟩, rfl, rfl, hne⟩
    rw [append_nil]
    exact ⟨⟨htags, hne⟩, hk⟩
  · rintro ⟨⟨htags, hne⟩, hk⟩
    exact ⟨ts, [], found, (append_nil ts).symm, ⟨htags, hk⟩, rfl, rfl, hne⟩

/-- Further definitions that do not go too deep. -/
def AlternativesWithin (depth : Nat) (ts : List Token) (es : List Expr) : Prop :=
  Alternatives ts es ∧ ∀ e ∈ es, e.nesting ≤ depth

theorem accepts_alternatives (depth : Nat) (hs : s.EndsIn .eof) (hfuel : s.rest.length ≤ fuel) :
    Accepts (alternativesWithin depth fuel) (fun ts es k =>
      AlternativesWithin depth ts es ∧ k ≠ .pipe ∧ (ts ≠ [] → EndsDimension k)) s := by
  have hstop {k : TokenKind} (hk : k ≠ .pipe) (es : List Expr) :
      AlternativesWithin depth [] es ∧ k ≠ .pipe ∧ ([] ≠ ([] : List Token) → EndsDimension k) ↔
        es = [] := by
    refine ⟨fun ⟨⟨hes, _⟩, _⟩ => ?_, ?_⟩
    · cases hes
      rfl
    · rintro rfl
      exact ⟨⟨.nil, nofun⟩, hk, nofun⟩
  induction fuel generalizing s with
  | zero =>
    have hrest : s.rest = [] := length_eq_zero_iff.mp (Nat.le_zero.mp hfuel)
    refine accepts_stop (hstop ?_) fun hne => absurd hrest hne
    rw [hs.kind_eq hrest]
    nofun
  | succ fuel ih =>
    refine accepts_look ?_
    split_ifs with h
    · have hread := (accepts_advance hs (kind_ne_eof h nofun)).bind fun _ us s₁ h₁ hus =>
        have hs₁ := hs.later h₁.later
        (recognizes_dimension depth s₁ hs₁).bind fun e _ s₂ h₂ _ =>
          (ih (hs₁.later h₂.later) (Nat.le_trans h₂.later.length_le (h₁.le_of_single hus hfuel))).bind
            fun more _ s₃ _ _ => accepts_pure (e :: more) s₃
      refine hread.congr fun ts es s' hts => ?_
      rw [Language.skip_andThen]
      constructor
      · rintro ⟨_, rfl, us, _, e, rfl, ⟨⟨he, hdepth⟩, hend⟩, vs, _, more, rfl,
          ⟨⟨hmore, hdepths⟩, hpipe, hends⟩, rfl, rfl⟩
        rw [append_nil] at hend ⊢
        refine ⟨⟨.cons h he hmore, forall_mem_cons.mpr ⟨hdepth, hdepths⟩⟩, hpipe, fun _ => ?_⟩
        cases vs with
        | nil => exact hend
        | cons t vs => exact hends nofun
      · rintro ⟨⟨hes, hdepths⟩, hpipe, hends⟩
        cases hes with
        | nil => exact absurd (hts.kind.symm.trans h) hpipe
        | @cons _ us vs e more _ he hmore =>
          obtain rfl := hts.eq_current
          obtain ⟨hdepth, hdepths⟩ := forall_mem_cons.mp hdepths
          have hend : EndsDimension (headKind vs s'.kind) := by
            cases hmore with
            | nil => exact hends nofun
            | cons hbar =>
              rw [headKind_cons, hbar]
              exact ⟨rfl, nofun⟩
          exact ⟨_, rfl, us, vs, e, rfl, ⟨⟨he, hdepth⟩, hend⟩, vs, [], more,
            (append_nil vs).symm, ⟨⟨hmore, hdepths⟩, hpipe, fun _ => hends nofun⟩, rfl, rfl⟩
    · refine accepts_stop (hstop h) ?_
      rintro - us es k ⟨⟨hes, -⟩, -⟩
      cases hes with
      | cons hbar => exact h hbar

theorem recognizes_allAlternatives (depth : Nat) :
    Recognizes (fun s => alternativesWithin depth s.rest.length s) fun ts es k =>
      AlternativesWithin depth ts es ∧ k ≠ .pipe ∧ (ts ≠ [] → EndsDimension k) := by
  intro s hs
  have hread := accepts_alternatives depth hs (Nat.le_refl _)
  exact ⟨hread.some_iff, hread.reports⟩

/-! ### Declarations -/

section Follow

variable {ts us : List Token} {t : Token} {k : TokenKind}

/-- Behind a clause that may be absent stands its first token, or what follows it. -/
theorem IsClause.headKind (h : IsClause first R) (hts : R ts a) :
    first (Parser.headKind (ts ++ t :: us) k) ∨ Parser.headKind (ts ++ t :: us) k = t.kind := by
  cases a with
  | none =>
    obtain rfl := h.none_iff.mp hts
    exact .inr rfl
  | some a =>
    obtain ⟨u, _, rfl, hu⟩ := h.head hts
    exact .inl hu

theorem endsDimension_alternatives (h : Alternatives ts es) (ht : EndsDimension t.kind) :
    EndsDimension (headKind (ts ++ t :: us) k) := by
  cases h with
  | nil => exact ht
  | cons hbar =>
    rw [cons_append, headKind_cons, hbar]
    exact ⟨rfl, nofun⟩

end Follow

theorem accepts_unitDeclarationWithin (depth : Nat) (hs : s.EndsIn .eof)
    (hunit : s.current.isKeyword .unit = true) :
    Accepts (unitDeclarationWithin depth) (fun ts u _ =>
      UnitDeclaration ts u ∧ ∀ e ∈ u.definitions, e.nesting ≤ depth) s := by
  have hclauses (start : Token) :=
    recognizes_kindClause.bind fun kind => (recognizes_expectName "unit name").bind fun name =>
      recognizes_someTags.bind fun tags => recognizes_formatClause.bind fun format =>
        (recognizes_expect .equal nofun).bind fun _ =>
          (recognizes_dimension depth).bind fun definition =>
            (recognizes_allAlternatives depth).bind fun alternatives =>
              (recognizes_expect .semicolon nofun).bind fun stop s _ =>
                accepts_pure
                  ({ name := name.value, span := start.span.upTo stop.span, kind, tags, format,
                     definition, alternatives } : UnitDecl) s
  have hread : Accepts (unitDeclarationWithin depth) _ s :=
    (accepts_take hs (kind_ne (kind_of_isKeyword hunit) nofun)).bind fun start _ s₁ h₁ _ =>
      hclauses start s₁ (hs.later h₁.later)
  refine hread.congr fun ts u s' hts => ?_
  constructor
  · rintro ⟨_, _, start, rfl, ⟨rfl, rfl⟩, ks, _, kind, rfl, ⟨hkind, -⟩, _, _, name, rfl, ⟨rfl, hname⟩,
      gs, _, tags, rfl, ⟨⟨htags, hsome⟩, -⟩, fs, _, format, rfl, ⟨hformat, -⟩, _, _, equal, rfl,
      ⟨rfl, hequal⟩, ds, _, definition, rfl, ⟨⟨hdefinition, hdepth⟩, -⟩, as, _, alternatives, rfl,
      ⟨⟨halternatives, hdepths⟩, -⟩, _, _, stop, rfl, ⟨rfl, hstop⟩, rfl, rfl⟩
    exact ⟨.mk hunit hkind hname htags hsome hformat hequal hdefinition halternatives hstop,
      forall_mem_cons.mpr ⟨hdepth, hdepths⟩⟩
  · rintro ⟨@⟨start, name, equal, stop, ks, gs, fs, ds, as, kind, tags, format, definition,
      alternatives, _, hkind, hname, htags, hsome, hformat, hequal, hdefinition, halternatives, hstop⟩,
      hshallow⟩
    obtain ⟨hdepth, hdepths⟩ := forall_mem_cons.mp hshallow
    obtain rfl := hts.eq_current
    refine ⟨[s.current], _, s.current, rfl, ⟨rfl, rfl⟩, ks, _, kind, rfl, ⟨hkind, fun _ => ?_⟩,
      [name], _, name, rfl, ⟨rfl, hname⟩, gs, _, tags, rfl, ⟨⟨htags, hsome⟩, ?_⟩, fs, _, format, rfl,
      ⟨hformat, fun _ => ?_⟩, [equal], _, equal, rfl, ⟨rfl, hequal⟩, ds, _, definition, rfl,
      ⟨⟨hdefinition, hdepth⟩, ?_⟩, as, _, alternatives, rfl, ⟨⟨halternatives, hdepths⟩, ?_⟩, [stop],
      [], stop, rfl, ⟨rfl, hstop⟩, rfl, rfl⟩
    · obtain ⟨verbatim, hname⟩ := hname
      rw [headKind_cons, hname]
      nofun
    · rcases isClause_format.headKind hformat with h | h <;> rw [h]
      · nofun
      · rw [hequal]
        nofun
    · rw [headKind_cons, hequal]
      nofun
    · exact endsDimension_alternatives halternatives (hstop ▸ ⟨rfl, nofun⟩)
    · rw [headKind_cons, hstop]
      exact ⟨nofun, fun _ => ⟨rfl, nofun⟩⟩

theorem accepts_unitDeclaration (hs : s.EndsIn .eof) (hunit : s.current.isKeyword .unit = true) :
    Accepts unitDeclaration (fun ts u _ => UnitDeclaration ts u ∧ u.IsShallow) s :=
  unitDeclaration_eq_within ▸ accepts_unitDeclarationWithin maxNesting hs hunit

/-- The first token of a numeral expression: of a name that stands for no constant, the factor
follows. -/
theorem numeralPhrase_head (h : NumeralPhrase ts e) :
    ∃ t us, ts = t :: us ∧ t.kind ≠ .dot ∧
      (IsReference t → ∃ dot vs, us = dot :: vs ∧ dot.kind = .dot) := by
  obtain ⟨us, vs, l, rfl, hl, -⟩ := chain_iff.mp h
  obtain ⟨us', vs', l', rfl, hl', -⟩ := chain_iff.mp hl
  cases us' with
  | nil => exact absurd hl' not_factor_nil
  | cons t us' =>
    refine ⟨t, _, rfl, fun hdot => ?_, fun ht => ?_⟩
    · simpa [hdot, IsName] using hl'.kind
    · obtain ⟨dot, property, rfl, hdot, -⟩ := (factor_reference ht).mp hl'
      exact ⟨dot, _, rfl, hdot⟩

theorem Takes.next (h : Takes s (t :: u :: us) s') : s.rest.headD s.current = u := by
  have htokens := h.tokens
  rw [(List.cons.inj htokens).2]
  rfl

/-- The word "from" and a unit, behind the offset of a scale. -/
def fromUnit (offset : Expr) : Parse (Token × Expr) := do
  if (← look).isKeyword .from then
    advance
    let unit ← expectName "unit name"
    pure (unit, offset)
  else unexpected "'from'"

/-- The unit of a scale, and the offset behind it. -/
def unitAndOffset (depth : Nat) : Parse (Token × Expr) := do
  let unit ← take
  let offset ← numeralWithin depth
  pure (unit, offset)

theorem recognizes_fromUnit (offset : Expr) : Recognizes (fromUnit offset) fun ts body _ =>
    ∃ word unit, ts = [word, unit] ∧ word.isKeyword .from = true ∧ IsName unit ∧
      body = (unit, offset) := by
  intro s hs
  refine accepts_look ?_
  split_ifs with hfrom
  · have hread := (accepts_advance hs (kind_ne (kind_of_isKeyword hfrom) nofun)).bind fun _ _ s₁ h₁ _ =>
      ((recognizes_expectName "unit name").bind fun unit s _ => accepts_pure (unit, offset) s) s₁
        (hs.later h₁.later)
    refine hread.congr fun ts body s' hts => ?_
    simp only [Language.skip_andThen, Language.token_andThen]
    constructor
    · rintro ⟨_, rfl, unit, _, rfl, hname, rfl, rfl⟩
      exact ⟨_, unit, rfl, hfrom, hname, rfl⟩
    · rintro ⟨word, unit, rfl, -, hname, rfl⟩
      exact ⟨_, congrArg (· :: _) hts.eq_current, unit, _, rfl, hname, rfl, rfl⟩
  · refine (accepts_unexpected _ s).congr fun ts body s' hts => iff_of_false id ?_
    rintro ⟨word, unit, rfl, hword, -⟩
    exact hfrom (hts.eq_current ▸ hword)

theorem recognizes_offsetFirst (depth : Nat) :
    Recognizes (numeralWithin depth >>= fromUnit) fun ts body _ =>
      OffsetFirst ts body ∧ body.2.nesting ≤ depth := by
  refine ((recognizes_numeral depth).bind recognizes_fromUnit).congr fun ts body k => ?_
  constructor
  · rintro ⟨us, _, offset, rfl, ⟨⟨hoffset, hdepth⟩, -⟩, word, unit, rfl, hword, hname, rfl⟩
    exact ⟨.mk hoffset hword hname, hdepth⟩
  · rintro ⟨@⟨us, offset, word, unit, hoffset, hword, hname⟩, hdepth⟩
    have hkind : word.kind = .identifier false := by
      simp only [Token.isKeyword, Bool.and_eq_true, decide_eq_true_eq] at hword
      exact hword.1
    have hend : EndsNumeral (headKind [word, unit] k) := by
      rw [headKind_cons, hkind]
      exact ⟨rfl, rfl⟩
    exact ⟨us, _, offset, rfl, ⟨⟨hoffset, hdepth⟩, hend⟩, word, unit, rfl, hword, hname, rfl⟩

theorem accepts_unitFirst (hs : s.EndsIn .eof) (hunit : IsReference s.current) :
    Accepts (unitAndOffset depth)
      (fun ts body k => (UnitFirst ts body ∧ EndsNumeral k) ∧ body.2.nesting ≤ depth) s := by
  obtain ⟨verbatim, hname⟩ := hunit.1
  have hread := (accepts_take hs (kind_ne_eof hname nofun)).bind fun unit _ s₁ h₁ _ =>
    ((recognizes_numeral depth).bind fun offset s _ => accepts_pure (unit, offset) s) s₁
      (hs.later h₁.later)
  refine hread.congr fun ts body s' hts => ?_
  rw [Language.token_andThen]
  constructor
  · rintro ⟨_, _, rfl, rfl, us, _, offset, rfl, ⟨⟨hoffset, hdepth⟩, hend⟩, rfl, rfl⟩
    rw [append_nil]
    exact ⟨⟨.mk hunit hoffset, hend⟩, hdepth⟩
  · rintro ⟨⟨@⟨us, offset, unit, _, hoffset⟩, hend⟩, hdepth⟩
    exact ⟨_, us, rfl, hts.eq_current, us, [], offset, (append_nil us).symm,
      ⟨⟨hoffset, hdepth⟩, hend⟩, rfl, rfl⟩

/-- **The two orders of a scale are told apart by two tokens.** -/
theorem recognizes_scaleBody (depth : Nat) : Recognizes (scaleBodyWithin depth) fun ts body k =>
    (OffsetFirst ts body ∨ UnitFirst ts body ∧ EndsNumeral k) ∧ body.2.nesting ≤ depth := by
  intro s hs
  have hread : Accepts (if isName s.current && !isConstant s.current &&
      (s.rest.headD s.current).kind != .dot then unitAndOffset depth
        else numeralWithin depth >>= fromUnit)
      (fun ts body k => (OffsetFirst ts body ∨ UnitFirst ts body ∧ EndsNumeral k) ∧
        body.2.nesting ≤ depth) s := by
    split_ifs with hfirst
    · simp only [Bool.and_eq_true, Bool.not_eq_true', bne_iff_ne, isName_iff] at hfirst
      obtain ⟨⟨hname, hconstant⟩, hnext⟩ := hfirst
      have hunit : IsReference s.current :=
        ⟨hname, isConstant_iff.not.mp (Bool.not_eq_true _ ▸ hconstant)⟩
      refine (accepts_unitFirst hs hunit).congr fun ts body s' hts => and_congr_left fun _ => ?_
      refine (or_iff_right ?_).symm
      -- an offset that begins with the unit would go on with a dot
      rintro ⟨hoffset, -, -⟩
      obtain ⟨t, us, rfl, -, hfactor⟩ := numeralPhrase_head hoffset
      obtain ⟨dot, vs, rfl, hdot⟩ := hfactor (hts.eq_current ▸ hunit)
      exact hnext (hts.next ▸ hdot)
    · refine (recognizes_offsetFirst depth s hs).congr fun ts body s' hts => and_congr_left fun _ => ?_
      refine (or_iff_left ?_).symm
      -- an offset behind the unit would begin with a dot
      rintro ⟨⟨hunit, hoffset⟩, -⟩
      obtain ⟨t, us, rfl, hdot, -⟩ := numeralPhrase_head hoffset
      obtain rfl := hts.eq_current
      have hconstant := (Bool.not_eq_true _).mp (isConstant_iff.not.mpr hunit.2)
      refine hfirst ?_
      rw [isName_iff.mpr hunit.1, hconstant, hts.next]
      simpa using hdot
  exact ⟨hread.some_iff, hread.reports⟩

theorem accepts_scaleDeclarationWithin (depth : Nat) (hs : s.EndsIn .eof)
    (hscale : s.current.isKeyword .scale = true) :
    Accepts (scaleDeclarationWithin depth) (fun ts d _ =>
      ScaleDeclaration ts d ∧ d.offset.nesting ≤ depth) s := by
  have hclauses (start : Token) :=
    (recognizes_expectName "scale name").bind fun name => recognizes_formatClause.bind fun format =>
      recognizes_refPointClause.bind fun refPoint =>
        (recognizes_expect .equal nofun).bind fun _ =>
          (recognizes_scaleBody depth).bind fun body =>
            (recognizes_expect .semicolon nofun).bind fun stop s _ =>
              accepts_pure
                ({ name := name.value, span := start.span.upTo stop.span, unit := body.1.value,
                   unitSpan := body.1.span, format, refPoint, offset := body.2 } : ScaleDecl) s
  have hread : Accepts (scaleDeclarationWithin depth) _ s :=
    (accepts_take hs (kind_ne (kind_of_isKeyword hscale) nofun)).bind fun start _ s₁ h₁ _ =>
      hclauses start s₁ (hs.later h₁.later)
  refine hread.congr fun ts d s' hts => ?_
  constructor
  · rintro ⟨_, _, start, rfl, ⟨rfl, rfl⟩, _, _, name, rfl, ⟨rfl, hname⟩, fs, _, format, rfl,
      ⟨hformat, -⟩, rs, _, refPoint, rfl, ⟨hrefPoint, -⟩, _, _, equal, rfl, ⟨rfl, hequal⟩, bs, _,
      body, rfl, ⟨hbody, hdepth⟩, _, _, stop, rfl, ⟨rfl, hstop⟩, rfl, rfl⟩
    exact ⟨.mk hscale hname hformat hrefPoint hequal (hbody.imp_right And.left) hstop, hdepth⟩
  · rintro ⟨@⟨start, name, equal, unit, stop, fs, rs, bs, format, refPoint, offset, _, hname, hformat,
      hrefPoint, hequal, hbody, hstop⟩, hdepth⟩
    obtain rfl := hts.eq_current
    refine ⟨[s.current], _, s.current, rfl, ⟨rfl, rfl⟩, [name], _, name, rfl, ⟨rfl, hname⟩, fs, _,
      format, rfl, ⟨hformat, fun _ => ?_⟩, rs, _, refPoint, rfl, ⟨hrefPoint, fun _ => ?_⟩, [equal], _,
      equal, rfl, ⟨rfl, hequal⟩, bs, _, (unit, offset), rfl, ⟨hbody.imp_right fun h => ⟨h, ?_⟩, hdepth⟩,
      [stop], [], stop, rfl, ⟨rfl, hstop⟩, rfl, rfl⟩
    · rcases isClause_refPoint.headKind hrefPoint with ⟨verbatim, h⟩ | h <;> rw [h]
      · nofun
      · rw [hequal]
        nofun
    · rw [headKind_cons, hequal]
      nofun
    · rw [headKind_cons, hstop]
      exact ⟨rfl, rfl⟩

theorem accepts_scaleDeclaration (hs : s.EndsIn .eof) (hscale : s.current.isKeyword .scale = true) :
    Accepts scaleDeclaration (fun ts d _ => ScaleDeclaration ts d ∧ d.IsShallow) s :=
  scaleDeclaration_eq_within ▸ accepts_scaleDeclarationWithin maxNesting hs hscale

end Parser

end Quantity
