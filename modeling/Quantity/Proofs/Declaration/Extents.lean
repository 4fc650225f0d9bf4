import Quantity.Proofs.Declaration.Grammatical
import Quantity.Proofs.Declaration.Recovery
import Quantity.Proofs.Expr.PostOrder

/-!
# Places of declarations and expressions

Whatever text is read, the place of a declaration runs from its keyword to its semicolon, places of
declarations follow each other as the declarations do, and the place of an expression runs from its
first leaf to its last (`Declarations.read_extents`). Places of several leaves are joined by
`Span.upTo`, which does not ask for an order; that it joins them as `Span.between` does rests on the
order of the tokens.
-/

namespace Quantity

open Grammar List

namespace Span

/-- The span from the first character of one span to the last character of another one. -/
def between (a b : Span) : Span :=
  { a with stop := b.stop, endLine := b.endLine, endColumn := b.endColumn }

def Within (a b : Span) : Prop := b.start ≤ a.start ∧ a.stop ≤ b.stop

theorem upTo_eq_between {a b : Span} (hstart : a.start ≤ b.start) (hstop : a.stop ≤ b.stop) :
    a.upTo b = a.between b := by
  simp [upTo, between, hstart, Nat.max_eq_right hstop]

end Span

namespace Expr

def children : Expr → List Expr
  | signed _ e | paren e => [e]
  | arith _ l r => [l, r]
  | _ => []

/-- The parts without parts, from left to right. -/
def leaves : Expr → List Expr
  | signed _ e | paren e => e.leaves
  | arith _ l r => l.leaves ++ r.leaves
  | number text s => [number text s]
  | literal name s => [literal name s]
  | magnitude m s => [magnitude m s]
  | reference name s => [reference name s]

/-! ### Tokens of an expression -/

/-- The tokens of a leaf. -/
inductive Leaf : List Token → Expr → Prop
  | number {t : Token} : t.kind = .number → Leaf [t] (.number t.value t.span)
  | literal {t : Token} : t.kind = .string ∨ IsConstant t → Leaf [t] (.literal t.value t.span)
  | reference {t : Token} : IsReference t → Leaf [t] (.reference t.value t.span)
  | plain {o c : Token} : o.kind = .less → c.kind = .greater →
    Leaf [o, c] (.magnitude none (o.span.upTo c.span))
  | magnitude {o name c : Token} {m : Magnitude} : o.kind = .less →
    Magnitude.ofName? name.value = some m → c.kind = .greater →
      Leaf [o, name, c] (.magnitude (some m) (o.span.upTo c.span))
  | factor {t dot property : Token} : IsReference t → dot.kind = .dot →
    property.value = "Factor" →
      Leaf [t, dot, property] (.reference t.value (t.span.upTo property.span))

/-- The tokens of an expression, of which only those of its leaves matter. -/
inductive Laid : List Token → Expr → Prop
  | leaf {ts : List Token} {e : Expr} : Leaf ts e → Laid ts e
  | signed {t : Token} {ts : List Token} {negative : Bool} {e : Expr} : Laid ts e →
    Laid (t :: ts) (.signed negative e)
  | paren {o c : Token} {ts : List Token} {e : Expr} : Laid ts e →
    Laid (o :: (ts ++ [c])) (.paren e)
  | arith {ls rs : List Token} {t : Token} {op : Arith} {l r : Expr} : Laid ls l → Laid rs r →
    Laid (ls ++ t :: rs) (.arith op l r)

theorem Laid.of_mem_nodes (h : Laid ts e) (hn : n ∈ e.nodes) : ∃ us, us <:+: ts ∧ Laid us n := by
  induction h with
  | @leaf ts e h =>
    have hself : n = e := by cases h <;> exact mem_singleton.mp hn
    exact ⟨ts, infix_refl ts, hself ▸ .leaf h⟩
  | @signed t ts negative e h ih =>
    rcases mem_append.mp hn with hn | hn
    · obtain ⟨us, hus, hn⟩ := ih hn
      exact ⟨us, hus.trans (suffix_cons t ts).isInfix, hn⟩
    · exact ⟨_, infix_refl _, mem_singleton.mp hn ▸ h.signed⟩
  | @paren o c ts e h ih =>
    rcases mem_append.mp hn with hn | hn
    · obtain ⟨us, hus, hn⟩ := ih hn
      exact ⟨us, hus.trans ⟨[o], [c], rfl⟩, hn⟩
    · exact ⟨_, infix_refl _, mem_singleton.mp hn ▸ h.paren⟩
  | @arith ls rs t op l r hl hr ihl ihr =>
    rcases mem_append.mp hn with hn | hn
    · rcases mem_append.mp hn with hn | hn
      · obtain ⟨us, hus, hn⟩ := ihl hn
        exact ⟨us, hus.trans (prefix_append ls _).isInfix, hn⟩
      · obtain ⟨us, hus, hn⟩ := ihr hn
        exact ⟨us, hus.trans ⟨ls ++ [t], [], by simp⟩, hn⟩
    · exact ⟨_, infix_refl _, mem_singleton.mp hn ▸ hl.arith hr⟩

end Expr

namespace Grammar

open Expr

theorem Chain.laid (h : Chain sign operand ts e)
    (ho : ∀ us e', e'.nesting ≤ e.nesting → operand us e' → Laid us e') : Laid ts e := by
  induction h with
  | single h => exact ho _ _ (Nat.le_refl _) h
  | @join ls rs t op l r _ _ hr ih =>
    have hl := ih fun us e' hle => ho us e' (Nat.le_trans hle (Nat.le_max_left _ _))
    exact hl.arith (ho rs r (Nat.le_max_right _ _) hr)

-- as for shapes, the induction is on how deep the term goes
theorem DimensionTerm.laid (h : DimensionTerm ts e) : Laid ts e := by
  induction hn : e.nesting using Nat.strongRecOn generalizing ts e with
  | ind n ih =>
    cases h with
    | plain ho hc => exact .leaf (.plain ho hc)
    | magnitude ho _ hm hc => exact .leaf (.magnitude ho hm hc)
    | number ht => exact .leaf (.number ht)
    | string ht => exact .leaf (.literal (.inl ht))
    | constant ht => exact .leaf (.literal (.inr ht))
    | reference ht => exact .leaf (.reference ht)
    | group _ hchain _ =>
      subst hn
      exact (hchain.laid fun us e' hle hterm =>
        ih e'.nesting (Nat.lt_succ_of_le hle) hterm rfl).paren

theorem DimensionPhrase.laid (h : DimensionPhrase ts e) : Laid ts e :=
  Chain.laid h fun _ _ _ => DimensionTerm.laid

theorem Factor.laid (h : Factor ts e) : Laid ts e := by
  induction hn : e.nesting using Nat.strongRecOn generalizing ts e with
  | ind n ih =>
    cases h with
    | @positive t ts e _ h | @negative t ts e _ h =>
      subst hn
      exact (ih e.nesting (Nat.lt_succ_self _) h rfl).signed
    | number ht => exact .leaf (.number ht)
    | string ht => exact .leaf (.literal (.inl ht))
    | constant ht => exact .leaf (.literal (.inr ht))
    | ofUnit ht hdot _ hproperty => exact .leaf (.factor ht hdot hproperty)
    | group _ hchain _ =>
      subst hn
      exact (hchain.laid fun us e' hle hproduct => hproduct.laid fun vs e'' hle' hfactor =>
        ih e''.nesting (Nat.lt_succ_of_le (Nat.le_trans hle' hle)) hfactor rfl).paren

theorem NumeralPhrase.laid (h : NumeralPhrase ts e) : Laid ts e :=
  Chain.laid h fun _ _ _ hproduct => hproduct.laid fun _ _ _ => Factor.laid

theorem Alternatives.laid (h : Alternatives ts es) : ∀ e ∈ es, ∃ us, us <:+: ts ∧ Laid us e := by
  induction h with
  | nil => simp
  | @cons bar ts us e es _ hphrase _ ih =>
    refine forall_mem_cons.mpr ⟨⟨ts, ⟨[bar], us, rfl⟩, DimensionPhrase.laid hphrase⟩, fun e he => ?_⟩
    obtain ⟨vs, hvs, he⟩ := ih e he
    exact ⟨vs, hvs.trans ⟨bar :: ts, [], by simp⟩, he⟩

theorem ScaleBody.laid (h : ScaleBody ts body) : ∃ us, us <:+: ts ∧ Laid us body.2 := by
  rcases h with ⟨@⟨us, _, word, unit, hphrase, -, -⟩⟩ | ⟨@⟨us, _, unit, -, hphrase⟩⟩
  · exact ⟨us, (prefix_append us _).isInfix, NumeralPhrase.laid hphrase⟩
  · exact ⟨us, (suffix_cons unit us).isInfix, NumeralPhrase.laid hphrase⟩

end Grammar

/-! ### Places of an expression -/

namespace Token

/-- Each token ends before the next one starts. -/
structure Ordered (ts : List Token) : Prop where
  pairwise : ts.Pairwise Precedes
  each : ∀ t ∈ ts, t.span.start ≤ t.span.stop

/-- The span runs from the first one of the tokens to the last one. -/
def Extent (ts : List Token) (s : Span) : Prop :=
  ∃ first last, ts.head? = some first ∧ ts.getLast? = some last ∧ s = first.span.between last.span

/-- The span runs from one of the tokens to another one. -/
def Runs (ts : List Token) (s : Span) : Prop :=
  s.start ≤ s.stop ∧ ∃ first ∈ ts, ∃ last ∈ ts, s = first.span.between last.span

theorem Ordered.sublist (h : Ordered ts) (hsub : us <+ ts) : Ordered us :=
  ⟨h.pairwise.sublist hsub, fun t ht => h.each t (hsub.subset ht)⟩

theorem Ordered.left (h : Ordered (ls ++ t :: rs)) : Ordered ls :=
  h.sublist (sublist_append_left ls _)

theorem Ordered.right (h : Ordered (ls ++ t :: rs)) : Ordered rs :=
  h.sublist ((suffix_cons t rs).trans (suffix_append ls _)).sublist

theorem Ordered.upTo_eq (h : Ordered ts) (ha : a ∈ ts) (hb : b ∈ ts) (hab : a.Precedes b) :
    a.span.upTo b.span = a.span.between b.span := by
  have ha := h.each a ha
  have hb := h.each b hb
  exact Span.upTo_eq_between (Nat.le_trans ha hab.2) (Nat.le_trans hab.2 hb)

theorem Extent.runs (h : Extent ts s) (hts : Ordered ts) : Runs ts s := by
  obtain ⟨first, last, hfirst, hlast, rfl⟩ := h
  obtain ⟨us, rfl⟩ := head?_eq_some_iff.mp hfirst
  have hmem := mem_of_getLast? hlast
  refine ⟨?_, first, mem_cons_self, last, hmem, rfl⟩
  have hfirst := hts.each first mem_cons_self
  rcases mem_cons.mp hmem with rfl | hlater
  · exact hfirst
  · have hbefore := ((pairwise_cons.mp hts.pairwise).1 last hlater).2
    exact Nat.le_trans hfirst (Nat.le_trans hbefore (hts.each last hmem))

theorem Runs.mono (h : Runs ts s) (hsub : ts ⊆ us) : Runs us s := by
  obtain ⟨hle, first, hfirst, last, hlast, hs⟩ := h
  exact ⟨hle, first, hsub hfirst, last, hsub hlast, hs⟩

theorem Runs.apart (ha : Runs ls a) (hb : Runs rs b) (h : Ordered (ls ++ t :: rs)) :
    a.start ≤ a.stop ∧ a.stop ≤ b.start ∧ b.start ≤ b.stop := by
  obtain ⟨hle, _, -, last, hlast, rfl⟩ := ha
  obtain ⟨hle', first, hfirst, _, -, rfl⟩ := hb
  have hbefore := (pairwise_append.mp h.pairwise).2.2 last hlast first (mem_cons_of_mem t hfirst)
  exact ⟨hle, hbefore.2, hle'⟩

end Token

namespace Expr

open Token

/-- **The place of an expression is that of its leaves**, and that of a leaf is that of its tokens. -/
structure Exact (ts : List Token) (e : Expr) : Prop where
  leaves : ∃ first last, e.leaves.head? = some first ∧ e.leaves.getLast? = some last ∧
    e.span = first.span.between last.span
  tokens : e.children = [] → ∃ us, us <:+: ts ∧ Leaf us e ∧ Extent us e.span
  children : ∀ c ∈ e.children, c.span.Within e.span

theorem Leaf.extent (h : Leaf ts e) (hts : Ordered ts) : Extent ts e.span := by
  have hpairwise := hts.pairwise
  cases h with
  | number | literal | reference => exact ⟨_, _, rfl, rfl, rfl⟩
  | plain => exact ⟨_, _, rfl, rfl, hts.upTo_eq (by simp) (by simp) (by simp_all)⟩
  | magnitude | factor => exact ⟨_, _, rfl, rfl, hts.upTo_eq (by simp) (by simp) (by simp_all)⟩

theorem span_arith (hl : Runs ls l.span) (hr : Runs rs r.span) (hts : Ordered (ls ++ t :: rs)) :
    (arith op l r).span = l.span.between r.span := by
  obtain ⟨hle, hbefore, hle'⟩ := hl.apart hr hts
  exact Span.upTo_eq_between (Nat.le_trans hle hbefore) (Nat.le_trans hbefore hle')

theorem Laid.runs (h : Laid ts e) (hts : Ordered ts) : Runs ts e.span := by
  induction h with
  | leaf h => exact (h.extent hts).runs hts
  | @signed t ts _ _ _ ih =>
    exact (ih (hts.sublist (sublist_cons_self t ts))).mono (subset_cons_self t ts)
  | @paren o c ts _ _ ih =>
    exact (ih (hts.sublist ((sublist_append_left ts [c]).cons o))).mono Grammar.subset_group
  | @arith ls rs t op l r _ _ ihl ihr =>
    have hl := ihl hts.left
    have hr := ihr hts.right
    obtain ⟨hle, hbefore, hle'⟩ := hl.apart hr hts
    rw [span_arith hl hr hts]
    obtain ⟨-, first, hfirst, _, -, hl⟩ := hl
    obtain ⟨-, _, -, last, hlast, hr⟩ := hr
    refine ⟨Nat.le_trans hle (Nat.le_trans hbefore hle'), first, mem_append_left _ hfirst, last,
      mem_append_right _ (mem_cons_of_mem t hlast), ?_⟩
    rw [hl, hr]
    rfl

theorem Laid.leaves (h : Laid ts e) (hts : Ordered ts) :
    ∃ first last, e.leaves.head? = some first ∧ e.leaves.getLast? = some last ∧
      e.span = first.span.between last.span := by
  induction h with
  | @leaf _ e h => exact ⟨e, e, by cases h <;> rfl, by cases h <;> rfl, rfl⟩
  | @signed t ts _ _ _ ih => exact ih (hts.sublist (sublist_cons_self t ts))
  | @paren o c ts _ _ ih => exact ih (hts.sublist ((sublist_append_left ts [c]).cons o))
  | @arith ls rs t op l r hl hr ihl ihr =>
    obtain ⟨first, _, hfirst, -, hspan⟩ := ihl hts.left
    obtain ⟨_, last, -, hlast, hspan'⟩ := ihr hts.right
    refine ⟨first, last, by simp [Expr.leaves, hfirst], by simp [Expr.leaves, hlast], ?_⟩
    rw [span_arith (hl.runs hts.left) (hr.runs hts.right) hts, hspan, hspan']
    rfl

theorem Laid.exact (h : Laid ts e) (hts : Ordered ts) : e.Exact ts where
  leaves := h.leaves hts
  tokens hnone := by
    cases h with
    | leaf h => exact ⟨ts, infix_refl ts, h, h.extent hts⟩
    | signed | paren | arith => cases hnone
  children := by
    cases h with
    | leaf h => cases h <;> simp [Expr.children]
    | signed | paren => exact forall_mem_singleton.mpr ⟨Nat.le_refl _, Nat.le_refl _⟩
    | arith hl hr =>
      have hl := hl.runs hts.left
      have hr := hr.runs hts.right
      obtain ⟨hle, hbefore, hle'⟩ := hl.apart hr hts
      rw [span_arith hl hr hts]
      exact forall_mem_cons.mpr ⟨⟨Nat.le_refl _, Nat.le_trans hbefore hle'⟩,
        forall_mem_singleton.mpr ⟨Nat.le_trans hle hbefore, Nat.le_refl _⟩⟩

theorem Exact.mono {e : Expr} (h : e.Exact us) (hsub : us <:+: ts) : e.Exact ts where
  leaves := h.leaves
  tokens hnone := by
    obtain ⟨vs, hvs, hleaf⟩ := h.tokens hnone
    exact ⟨vs, hvs.trans hsub, hleaf⟩
  children := h.children

end Expr

/-! ### Places of declarations -/

namespace Declarations

open Quantity.Parser

def spans (ds : Declarations) : List Span := ds.units.map (·.span) ++ ds.scales.map (·.span)

/-- The keyword of the declaration, if it is one. -/
def keyword (ds : Declarations) : Keyword := if ds.units = [] then .scale else .unit

theorem laid_of_declaration (h : Declaration ts new) :
    ∃ start mid stop, ts = start :: (mid ++ [stop]) ∧ start.isKeyword new.keyword = true ∧
      stop.kind = .semicolon ∧ new.spans = [start.span.upTo stop.span] ∧
      ∀ e ∈ new.expressions, ∃ us, us <:+: mid ∧ e.Laid us := by
  cases h with
  | unit h =>
    obtain @⟨start, name, equal, stop, ks, ts, fs, ds, as, _, _, _, _, _, hstart, -, -, -, -, -, -,
      hdefinition, halternatives, hstop⟩ := h
    refine ⟨start, ks ++ name :: (ts ++ (fs ++ equal :: (ds ++ as))), stop, by simp, hstart, hstop,
      rfl, ?_⟩
    simp only [expressions, definitions, flatMap_singleton, map_nil, append_nil, forall_mem_cons,
      UnitDecl.definitions]
    refine ⟨⟨ds, ⟨ks ++ name :: (ts ++ (fs ++ [equal])), as, by simp⟩,
      DimensionPhrase.laid hdefinition⟩, fun e he => ?_⟩
    obtain ⟨us, hus, he⟩ := halternatives.laid e he
    exact ⟨us, hus.trans ⟨ks ++ name :: (ts ++ (fs ++ equal :: ds)), [], by simp⟩, he⟩
  | scale h =>
    obtain @⟨start, name, equal, unit, stop, fs, rs, bs, _, _, _, hstart, -, -, -, -, hbody,
      hstop⟩ := h
    refine ⟨start, name :: (fs ++ (rs ++ equal :: bs)), stop, by simp, hstart, hstop, rfl,
      forall_mem_singleton.mpr ?_⟩
    obtain ⟨us, hus, hoffset⟩ := ScaleBody.laid hbody
    exact ⟨us, hus.trans ⟨name :: (fs ++ (rs ++ [equal])), [], by simp⟩, hoffset⟩

theorem exact_of_declaration (h : Declaration ts new) (hts : Token.Ordered ts) :
    ∃ start mid stop, ts = start :: (mid ++ [stop]) ∧ start.isKeyword new.keyword = true ∧
      stop.kind = .semicolon ∧ new.spans = [start.span.between stop.span] ∧
      ∀ e ∈ new.expressions, ∀ n ∈ e.nodes,
        n.Exact mid ∧ n.span.Within (start.span.between stop.span) := by
  obtain ⟨start, mid, stop, rfl, hstart, hstop, hspans, hlaid⟩ := laid_of_declaration h
  obtain ⟨hbehind, hmid⟩ := pairwise_cons.mp hts.pairwise
  have hspan := hts.upTo_eq mem_cons_self (by simp) (hbehind stop (by simp))
  refine ⟨start, mid, stop, rfl, hstart, hstop, hspan ▸ hspans, fun e he n hn => ?_⟩
  obtain ⟨us, hus, he⟩ := hlaid e he
  obtain ⟨vs, hvs, hn⟩ := he.of_mem_nodes hn
  have hvs := hvs.trans hus
  have hordered := hts.sublist ((hvs.sublist.trans (sublist_append_left mid [stop])).cons start)
  refine ⟨(hn.exact hordered).mono hvs, ?_⟩
  obtain ⟨-, first, hfirst, last, hlast, hspan⟩ := hn.runs hordered
  have hafter := hbehind first (mem_append_left _ (hvs.subset hfirst))
  have hbefore := (pairwise_append.mp hmid).2.2 last (hvs.subset hlast) stop (by simp)
  have hle := hts.each stop (by simp)
  rw [hspan]
  exact ⟨Nat.le_trans (Nat.le_of_lt hafter.1) hafter.2, Nat.le_trans hbefore.2 hle⟩

theorem Reached.exists_parts (h : Reached source text s found) :
    ∃ parts : List (List Token × Declarations),
      found = (parts.map Prod.snd).foldl append {} ∧
      parts.flatMap Prod.fst ++ s.tokens <+ Token.significant text ∧
      ∀ p ∈ parts, p.1 <:+: Token.significant text ∧ Declaration p.1 p.2 := by
  induction h with
  | start htokens => exact ⟨[], rfl, htokens ▸ Sublist.refl _, by simp⟩
  | @step s found h _ ih =>
    obtain ⟨parts, hfound, htokens, hparts⟩ := ih
    rcases step_found h.endsIn found with hsame | ⟨us, s', new, hus, hnew, -, hstep⟩
    · have hlater := (later_step s found).tokens.sublist
      exact ⟨parts, hsame.trans hfound, ((Sublist.refl _).append hlater).trans htokens, hparts⟩
    · rw [hstep]
      refine ⟨parts ++ [(us, new)], by simp [hfound], by simpa [← hus.tokens] using htokens,
        forall_mem_append.mpr ⟨hparts, forall_mem_singleton.mpr ⟨?_, hnew⟩⟩⟩
      have hprefix : us <+: s.tokens := hus.tokens ▸ prefix_append us s'.tokens
      exact hprefix.isInfix.trans h.tokens.isInfix

/-- **Places are exact.** What is read comes from stretches of tokens, one after another. Each of them
starts at the keyword of its declaration and stops at the semicolon, and so does the place of the
declaration; the places of its expressions are those of their leaves and within it. -/
theorem read_extents (source : Option String) (text : String) :
    ∃ parts : List (List Token × Declarations),
      (read source text).1 = (parts.map Prod.snd).foldl append {} ∧
      (∀ p ∈ parts, p.1 <:+: Token.significant text ∧ Declaration p.1 p.2 ∧
        ∃ start mid stop, p.1 = start :: (mid ++ [stop]) ∧ start.isKeyword p.2.keyword = true ∧
          stop.kind = .semicolon ∧ p.2.spans = [start.span.between stop.span] ∧
          ∀ e ∈ p.2.expressions, ∀ n ∈ e.nodes,
            n.Exact mid ∧ n.span.Within (start.span.between stop.span)) ∧
      (parts.flatMap (·.2.spans)).Pairwise fun a b => a.start < a.stop ∧ a.stop ≤ b.start := by
  have hordered : Token.Ordered (Token.significant text) :=
    ⟨pairwise_significant text, fun _ => ordered_of_mem⟩
  obtain ⟨s, hreached, -⟩ := exists_reached_eof source text
  obtain ⟨parts, hfound, htokens, hparts⟩ := hreached.exists_parts
  have hspans (p) (hp : p ∈ parts) :=
    exact_of_declaration (hparts p hp).2 (hordered.sublist (hparts p hp).1.sublist)
  refine ⟨parts, hfound, fun p hp => ⟨(hparts p hp).1, (hparts p hp).2, hspans p hp⟩, ?_⟩
  have hpairwise := hordered.pairwise.sublist ((sublist_append_left _ _).trans htokens)
  obtain ⟨heach, hbetween⟩ := pairwise_flatMap.mp hpairwise
  refine pairwise_flatMap.mpr ⟨fun p hp => ?_, ?_⟩
  · obtain ⟨start, mid, stop, -, -, -, hspan, -⟩ := hspans p hp
    rw [hspan]
    exact pairwise_singleton _ _
  · refine hbetween.imp_of_mem fun {p q} hp hq hbefore => ?_
    have heach := heach p hp
    obtain ⟨start, mid, stop, hp, -, -, hspan, -⟩ := hspans p hp
    obtain ⟨next, mid', stop', hq, -, -, hspan', -⟩ := hspans q hq
    rw [hp, pairwise_cons] at heach
    have hinside := heach.1 stop (by simp)
    have hlast := hbefore stop (by simp [hp]) next (by simp [hq])
    rw [hspan, hspan', forall_mem_singleton, forall_mem_singleton]
    exact ⟨Nat.lt_of_lt_of_le hinside.1 (Nat.le_trans hinside.2 (Nat.le_of_lt hlast.1)), hlast.2⟩

end Declarations

end Quantity
