import Quantity.Proofs.Loader.Compiles
import Quantity.Proofs.Model.Extended

/-!
# Places do not count

Declarations and the entries they add to a model remember where they stand in their text. Places
are there to be reported: declarations that differ in nothing else have the same meaning
(`Sound.elsewhere`), and entries that differ in nothing else get the same families, connections
and operations (`unplaced_connected` and `unplaced_resolveOperations`). So texts with the
same declarations at other places leave the same model but for places
(`exists_extend_elsewhere`).
-/

namespace Quantity

open List

theorem toOption_bind (x : Except ε α) (f : α → Except ε β) :
    (x >>= f).toOption = x.toOption.bind fun a => (f a).toOption := by
  cases x <;> rfl

theorem toOption_mapError (f : ε → ε') (x : Except ε α) : (x.mapError f).toOption = x.toOption := by
  cases x <;> rfl

/-! ### Expressions -/

namespace Expr

variable (f : Span → Span) (lookup : String → Lookup)

@[simp] theorem references_move (e : Expr) : (e.move f).references = e.references := by
  induction e with
  | number | literal | magnitude | reference => rfl
  | signed _ e ih => exact ih
  | paren e ih => exact ih
  | arith op l r ihl ihr => rw [move, references, references, ihl, ihr]

theorem toOption_resolve (l : Lookup) (name : String) (s t : Span) :
    (l.resolve name s).toOption = (l.resolve name t).toOption := by
  cases l <;> rfl

theorem toOption_dimensionProduct (s t : Span) (a b : DimensionExpr) :
    (dimensionProduct s a b).toOption = (dimensionProduct t a b).toOption := by
  unfold dimensionProduct
  cases a.value.mul b.value <;> split_ifs <;> rfl

theorem toOption_dimensionQuotient (s t : Span) (a b : DimensionExpr) :
    (dimensionQuotient s a b).toOption = (dimensionQuotient t a b).toOption := by
  unfold dimensionQuotient
  cases a.value.div b.value <;> split_ifs <;> rfl

theorem toOption_combineValues (op : Arith) (s t : Span) (a b : NumeralExpr) :
    (combineValues op s a b).toOption = (combineValues op t a b).toOption := by
  unfold combineValues
  cases op.apply a.value b.value <;> rfl

/-- **The dimension of an expression does not depend on its place.** -/
theorem toOption_encodeDimension_move (e : Expr) :
    ((e.move f).encodeDimension lookup).toOption = (e.encodeDimension lookup).toOption := by
  induction e with
  | number | literal => rfl
  | magnitude m _ => cases m <;> rfl
  | reference name s =>
    simp only [move, encodeDimension, toOption_bind, toOption_resolve _ name (f s) s]
  | signed _ e ih => exact ih
  | paren e ih => simp only [move, encodeDimension, toOption_bind, ih]
  | arith op l r ihl ihr =>
    cases op with
    | product =>
      simp only [move, encodeDimension, toOption_bind, ihl, ihr]
      simp only [toOption_dimensionProduct _ (l.span.upTo r.span)]
    | quotient =>
      simp only [move, encodeDimension, toOption_bind, ihl, ihr]
      simp only [toOption_dimensionQuotient _ (l.span.upTo r.span)]
    | sum | difference => rfl

/-- **The value of an expression does not depend on its place.** -/
theorem toOption_encodeValue_move (kind : NumericKind) (e : Expr) :
    ((e.move f).encodeValue lookup kind).toOption = (e.encodeValue lookup kind).toOption := by
  induction e with
  | number text s =>
    simp only [move, encodeValue]
    cases kind.parse text <;> rfl
  | literal | magnitude => rfl
  | reference name s =>
    simp only [move, encodeValue, toOption_bind, toOption_resolve _ name (f s) s]
    refine congrArg _ (funext fun unit => ?_)
    split_ifs <;> rfl
  | signed _ e ih => simp only [move, encodeValue, toOption_bind, ih]
  | paren e ih => simp only [move, encodeValue, toOption_bind, ih]
  | arith op l r ihl ihr =>
    simp only [move, encodeValue, toOption_bind, ihl, ihr]
    simp only [toOption_combineValues op _ (l.span.upTo r.span)]

variable {f lookup} in
theorem encodeValue_elsewhere {kind : NumericKind} {e e' : Expr} {n : NumeralExpr}
    (he : e'.move f = e.move f) (h : e.encodeValue lookup kind = .ok n) :
    e'.encodeValue lookup kind = .ok n := by
  rw [← Model.toOption_eq_some_iff] at h ⊢
  rw [← toOption_encodeValue_move f, he, toOption_encodeValue_move, h]

end Expr

/-! ### Declarations -/

@[simp] theorem UnitDecl.references_move (f : Span → Span) (d : UnitDecl) :
    (d.move f).references = d.references := by
  unfold references UnitDecl.definitions UnitDecl.move
  simp [flatMap_map]

namespace Elaborate

theorem toOption_encodeDefinition_move (f : Span → Span) (s : Scope) (owner : String)
    (kind : NumericKind) (e : Expr) :
    (encodeDefinition s owner kind (e.move f)).toOption =
      (encodeDefinition s owner kind e).toOption := by
  unfold encodeDefinition
  simp only [toOption_mapError, toOption_bind, Expr.toOption_encodeDimension_move,
    Expr.toOption_encodeValue_move]

theorem toOption_checkAlternative (name : String) (main alternative : Encoded) (s t : Span) :
    (checkAlternative name main alternative s).toOption =
      (checkAlternative name main alternative t).toOption := by
  unfold checkAlternative
  dsimp only
  split_ifs <;> rfl

/-- An alternative is checked in the same way wherever it stands. -/
theorem toOption_alternatives_move (f : Span → Span) (s : Scope) (kind : NumericKind)
    (name : String) (main : Encoded) (es : List Expr) :
    ((es.map (Expr.move f)).forM fun e => do
        checkAlternative name main (← encodeDefinition s name kind e) e.span).toOption =
      (es.forM fun e => do
        checkAlternative name main (← encodeDefinition s name kind e) e.span).toOption := by
  induction es with
  | nil => rfl
  | cons e es ih =>
    simp only [forM_eq_forM] at ih
    simp only [forM_eq_forM, map_cons, forM_cons, toOption_bind,
      toOption_encodeDefinition_move, ih]
    simp only [toOption_checkAlternative name main _ _ e.span]

/-- **The meaning of a unit does not depend on the place of its declaration.** -/
theorem toOption_encodeUnit_move (f : Span → Span) (s : Scope) (kind : NumericKind) (d : UnitDecl) :
    (encodeUnit s kind (d.move f)).toOption = (encodeUnit s kind d).toOption := by
  unfold encodeUnit UnitDecl.move
  simp only [toOption_bind, toOption_encodeDefinition_move, toOption_alternatives_move]
  refine congrArg _ (funext fun main => congrArg _ (funext fun _ => ?_))
  split_ifs <;> rfl

end Elaborate

/-! ### Entries without places -/

/-- The declaration, wherever it stands. -/
def UnitDecl.unplaced (d : UnitDecl) : UnitDecl := d.move fun _ => {}

/-- The declaration, wherever it stands. -/
def ScaleDecl.unplaced (d : ScaleDecl) : ScaleDecl := d.move fun _ => {}

/-- The declarations, wherever they stand. -/
def Declarations.unplaced (ds : Declarations) : Declarations := ds.move fun _ => {}

/-- The origin without a place in the text at hand. -/
def Origin.unplaced : Origin → Origin
  | declared _ => declared {}
  | restored module => restored module

def UnitEntry.unplaced (u : UnitEntry) : UnitEntry := { u with origin := u.origin.unplaced }

/-- The scale, wherever it was declared. -/
def ScaleEntry.unplaced (s : ScaleEntry) : ScaleEntry := { s with origin := s.origin.unplaced }

/-- **The model, wherever its entries were declared.** -/
def Model.unplaced (m : Model) : Model :=
  { m with units := m.units.map (·.unplaced), scales := m.scales.map (·.unplaced) }

theorem UnitDecl.eq_of_unplaced_eq {d d' : UnitDecl} (h : d'.unplaced = d.unplaced) :
    d'.name = d.name ∧ d'.kind = d.kind ∧ d'.tags = d.tags ∧ d'.format = d.format ∧
      d'.references = d.references := by
  have hrefs := congrArg references h
  unfold unplaced at h hrefs
  rw [references_move, references_move] at hrefs
  simp only [move, mk.injEq] at h
  tauto

theorem ScaleDecl.eq_of_unplaced_eq {d d' : ScaleDecl} (h : d'.unplaced = d.unplaced) :
    d'.name = d.name ∧ d'.unit = d.unit ∧ d'.refPoint = d.refPoint ∧ d'.format = d.format ∧
      d'.offset.move (fun _ => {}) = d.offset.move fun _ => {} := by
  unfold unplaced at h
  simp only [move, mk.injEq] at h
  tauto

namespace Elaborate

variable {options : Options} {m : Model} {s : Scope} {us us' : List UnitDecl}
  {late late' : List UnitEntry} {scales : List ScaleEntry}

/-! ### Names without places -/

section Scope

variable (units : List UnitEntry)

@[simp] theorem names_scopeOf_unplaced :
    (scopeOf (units.map (·.unplaced))).names = (scopeOf units).names := by
  simp only [scopeOf, start, zipIdx_map, foldl_map]
  rfl

@[simp] theorem states_scopeOf_unplaced :
    (scopeOf (units.map (·.unplaced))).states = (scopeOf units).states :=
  map_map

@[simp] theorem lookup_scopeOf_unplaced (name : String) :
    (scopeOf (units.map (·.unplaced))).lookup name = (scopeOf units).lookup name := by
  have hunits (i : Nat) :
      (scopeOf (units.map (·.unplaced))).units[i]? = ((scopeOf units).units[i]?).map (·.unplaced) :=
    getElem?_map
  simp only [Scope.lookup, Scope.state, names_scopeOf_unplaced, states_scopeOf_unplaced, hunits]
  cases (scopeOf units).names.get? name with
  | none => rfl
  | some i =>
    dsimp only
    cases (scopeOf units).states.getD i .pending <;> cases (scopeOf units).units[i]? <;> rfl

@[simp] theorem cause?_scopeOf_unplaced (name : String) :
    (scopeOf (units.map (·.unplaced))).cause? name = (scopeOf units).cause? name := by
  simp only [Scope.cause?, Scope.state, names_scopeOf_unplaced, states_scopeOf_unplaced]

end Scope

theorem lookup_scopeOf_congr (h : units'.map (·.unplaced) = units.map (·.unplaced))
    (name : String) :
    (scopeOf units').lookup name = (scopeOf units).lookup name ∧
      (scopeOf units').cause? name = (scopeOf units).cause? name := by
  constructor
  · rw [← lookup_scopeOf_unplaced units', h, lookup_scopeOf_unplaced]
  · rw [← cause?_scopeOf_unplaced units', h, cause?_scopeOf_unplaced]

theorem map_unplaced_append (h : late'.map (·.unplaced) = late.map (·.unplaced)) :
    (m.units ++ late').map (·.unplaced) = (m.units ++ late).map (·.unplaced) := by
  rw [map_append, map_append, h]

/-! ### The same meaning -/

theorem encodeUnit_elsewhere (hd : d'.unplaced = d.unplaced) (h : encodeUnit s kind d = .ok e) :
    encodeUnit s kind d' = .ok e := by
  have hmove (d : UnitDecl) :
      (encodeUnit s kind d.unplaced).toOption = (encodeUnit s kind d).toOption :=
    toOption_encodeUnit_move ..
  rw [← Model.toOption_eq_some_iff] at h ⊢
  rw [← hmove, hd, hmove, h]

/-- The unit as if it came from a declaration. -/
def placedAt (u : UnitEntry) (d : UnitDecl) : UnitEntry := { u with origin := .declared d.span }

/-- A declaration elsewhere gives the same unit, but for its place. -/
theorem complete_elsewhere (hd : d'.unplaced = d.unplaced) (e : Encoded) :
    placedAt (complete options d e (fresh options d (redeclares options m d))) d' =
      complete options d' e (fresh options d' (redeclares options m d')) := by
  obtain ⟨hname, hkind, htags, hformat, -⟩ := UnitDecl.eq_of_unplaced_eq hd
  simp only [placedAt, complete, fresh, redeclares, hname, hkind, htags, hformat]

section Units

variable (h : IsSolution options m us late) (hus : us'.map (·.unplaced) = us.map (·.unplaced))

include h hus

theorem IsSolution.exists_elsewhere {k : Nat} (hk : us'[k]? = some d') :
    ∃ d e, us[k]? = some d ∧ d'.unplaced = d.unplaced ∧
      encodeUnit (scopeOf (m.units ++ late)) (d.kind.getD options.kind) d = .ok e ∧
      late[k]? = some (complete options d e (fresh options d (redeclares options m d))) ∧
      (List.zipWith placedAt late us')[k]? =
        some (complete options d' e (fresh options d' (redeclares options m d'))) := by
  obtain ⟨d, hd, halike⟩ := Model.exists_getElem?_of_map_eq hus hk
  obtain ⟨e, he, hu⟩ := h.meaning k d hd
  refine ⟨d, e, hd, halike.symm, he, hu, ?_⟩
  rw [getElem?_zipWith, hu, hk]
  exact congrArg some (complete_elsewhere halike.symm e)

/-- Late units with the places of other declarations are the same, but for places. -/
theorem IsSolution.map_unplaced :
    (List.zipWith placedAt late us').map (·.unplaced) = late.map (·.unplaced) := by
  refine ext_getElem? fun k => ?_
  rw [getElem?_map, getElem?_map]
  cases hk : us'[k]? with
  | some d' =>
    obtain ⟨d, e, hd, halike, -, hu, hu'⟩ := h.exists_elsewhere hus hk
    rw [hu, hu', ← complete_elsewhere halike]
    rfl
  | none =>
    have hlate : late[k]? = none := by
      have hlen := congrArg List.length hus
      rw [length_map, length_map] at hlen
      rw [getElem?_eq_none_iff] at hk ⊢
      rw [h.length]
      omega
    rw [getElem?_zipWith, hlate]

/-- **Declarations elsewhere are solved by the same units**, but for places. -/
theorem IsSolution.elsewhere : IsSolution options m us' (List.zipWith placedAt late us') where
  length := by
    have hlen := congrArg List.length hus
    rw [length_map, length_map] at hlen
    rw [length_zipWith, h.length, hlen, Nat.min_self]
  meaning := by
    intro k d' hk
    obtain ⟨d, e, -, halike, he, -, hu'⟩ := h.exists_elsewhere hus hk
    refine ⟨e, ?_, hu'⟩
    rw [encodeUnit_congr (lookup_scopeOf_congr (map_unplaced_append (h.map_unplaced hus))),
      (UnitDecl.eq_of_unplaced_eq halike).2.1]
    exact encodeUnit_elsewhere halike he
  wellFounded := by
    refine Subrelation.wf ?_ h.wellFounded
    rintro l k ⟨d', b', hk, hl, href⟩
    obtain ⟨d, hd, halike⟩ := Model.exists_getElem?_of_map_eq hus hk
    obtain ⟨b, hb, hblike⟩ := Model.exists_getElem?_of_map_eq hus hl
    refine ⟨d, b, hd, hb, ?_⟩
    rwa [← (UnitDecl.eq_of_unplaced_eq hblike.symm).1,
      ← (UnitDecl.eq_of_unplaced_eq halike.symm).2.2.2.2]

end Units

theorem AllAdmitted.elsewhere (h : AllAdmitted options m us)
    (hus : us'.map (·.unplaced) = us.map (·.unplaced)) : AllAdmitted options m us' where
  differ := by
    have hdiffer : (us.map (·.unplaced)).Pairwise Differ := pairwise_map.mpr h.differ
    rw [← hus, pairwise_map] at hdiffer
    exact hdiffer
  admits := by
    intro d' hd'
    obtain ⟨d, hd, halike⟩ := Model.exists_mem_of_map_eq hus hd'
    obtain ⟨hname, -, htags, -⟩ := UnitDecl.eq_of_unplaced_eq halike.symm
    have hadmits := h.admits d hd
    exact ⟨hname ▸ hadmits.name, hname ▸ htags ▸ hadmits.tags⟩

theorem AliasesAgree.elsewhere (h : AliasesAgree options m late)
    (hlate : late'.map (·.unplaced) = late.map (·.unplaced)) : AliasesAgree options m late' := by
  intro hpolicy u' hu' i v hi hv
  obtain ⟨u, hu, halike⟩ := Model.exists_mem_of_map_eq hlate hu'
  have hname : u.unplaced.name = u'.unplaced.name := by rw [halike]
  have hagree : agree u.unplaced v = true := h hpolicy u hu i v ((congrArg _ hname).trans hi) hv
  rwa [halike] at hagree

theorem map_unplaced_kept (hlate : late'.map (·.unplaced) = late.map (·.unplaced)) :
    (kept options m late').map (·.unplaced) = (kept options m late).map (·.unplaced) := by
  have hkept (us : List UnitEntry) :
      kept options m (us.map (·.unplaced)) = (kept options m us).map (·.unplaced) := by
    unfold kept
    rw [filter_map]
    rfl
  rw [← hkept, hlate, hkept]

/-- A scale declared elsewhere over units elsewhere is the same, but for its place. -/
theorem encodeScale_elsewhere (hunits : units'.map (·.unplaced) = units.map (·.unplaced))
    (hd : d'.unplaced = d.unplaced)
    (h : encodeScale (scopeOf units) d (bareScale options (scopeOf units) d) = .ok scale) :
    ∃ scale', encodeScale (scopeOf units') d' (bareScale options (scopeOf units') d') = .ok scale' ∧
      scale'.unplaced = scale.unplaced := by
  obtain ⟨i, u, offset, hi, hstate, hu, hoffset, rfl⟩ := encodeScale_eq_ok_iff.mp h
  obtain ⟨hname, hunit, hpoint, hformat, hmove⟩ := ScaleDecl.eq_of_unplaced_eq hd
  have hnames : (scopeOf units').names = (scopeOf units).names := by
    rw [← names_scopeOf_unplaced units', hunits, names_scopeOf_unplaced]
  have hstates : (scopeOf units').states = (scopeOf units).states := by
    rw [← states_scopeOf_unplaced units', hunits, states_scopeOf_unplaced]
  obtain ⟨u', hu', halike⟩ := Model.exists_getElem?_of_map_eq hunits.symm hu
  have hkind : u'.unplaced.kind = u.unplaced.kind := by rw [halike]
  have hunitFormat : u'.unplaced.format = u.unplaced.format := by rw [halike]
  have hlookup : (scopeOf units').lookup = (scopeOf units).lookup :=
    funext fun name => (lookup_scopeOf_congr hunits name).1
  have hoffset' : d'.offset.encodeValue (scopeOf units').lookup u'.kind = .ok offset := by
    rw [hlookup, show u'.kind = u.kind from hkind]
    exact Expr.encodeValue_elsewhere hmove hoffset
  refine ⟨_, encodeScale_eq_ok_iff.mpr ⟨i, u', offset, ?_, ?_, hu', hoffset', rfl⟩, ?_⟩
  · rw [← hi]
    simp only [bareScale, hnames, hunit]
  · rw [Scope.state, hstates]
    exact hstate
  · simp only [bareScale, hnames, hname, hunit, hpoint,
      hformat, show u'.format = u.format from hunitFormat]
    rfl

/-- **Scales declared elsewhere are the same**, but for places. -/
theorem ScalesFit.elsewhere (h : ScalesFit options m late decls scales)
    (hlate : late'.map (·.unplaced) = late.map (·.unplaced))
    (hdecls : decls'.map (·.unplaced) = decls.map (·.unplaced)) :
    ∃ scales', ScalesFit options m late' decls' scales' ∧
      scales'.map (·.unplaced) = scales.map (·.unplaced) := by
  obtain ⟨hnodup, hfits⟩ := h
  have hnames : decls'.map (·.name) = decls.map (·.name) := by
    have hmap := congrArg (List.map ScaleDecl.name) hdecls
    rw [map_map, map_map] at hmap
    exact hmap
  suffices h : ∃ scales', List.Forall₂ (ScaleFits options m late') decls' scales' ∧
      scales'.map (·.unplaced) = scales.map (·.unplaced) by
    obtain ⟨scales', hfits', hscales⟩ := h
    exact ⟨scales', ⟨hnames ▸ hnodup, hfits'⟩, hscales⟩
  clear hnodup hnames
  induction hfits generalizing decls' with
  | nil =>
    obtain rfl : decls' = [] := map_eq_nil_iff.mp hdecls
    exact ⟨[], .nil, rfl⟩
  | @cons d scale decls scales hfit _ ih =>
    obtain ⟨d', decls', rfl, hd, hdecls⟩ := map_eq_cons_iff.mp hdecls
    obtain ⟨scales', hfits', hscales⟩ := ih hdecls
    obtain ⟨scale', hmeaning, hscale⟩ :=
      encodeScale_elsewhere (map_unplaced_append hlate) hd hfit.meaning
    have hname := (ScaleDecl.eq_of_unplaced_eq hd).1
    refine ⟨scale' :: scales', .cons ⟨fun u' hu' => ?_, ?_, hmeaning⟩ hfits', ?_⟩
    · obtain ⟨u, hu, halike⟩ := Model.exists_mem_of_map_eq hlate hu'
      have hun : u.unplaced.name = u'.unplaced.name := by rw [halike]
      rw [hname]
      exact fun heq => hfit.apart u hu (hun.trans heq)
    · rw [hname]
      exact hfit.name
    · rw [map_cons, map_cons, hscale, hscales]

/-- **Declarations elsewhere have the same meaning**, but for places. -/
theorem Sound.elsewhere (h : Sound options m decls late scales)
    (hdecls : decls'.unplaced = decls.unplaced) :
    ∃ late' scales', Sound options m decls' late' scales' ∧
      (extended options m late' scales').unplaced = (extended options m late scales).unplaced := by
  have hunits : decls'.units.map (·.unplaced) = decls.units.map (·.unplaced) :=
    congrArg Declarations.units hdecls
  have hlate := h.solution.map_unplaced hunits
  obtain ⟨scales', hfit, hscales⟩ := h.scalesFit.elsewhere (map_unplaced_kept hlate)
    (congrArg Declarations.scales hdecls)
  refine ⟨_, scales', ⟨⟨h.admitted.elsewhere hunits, h.solution.elsewhere hunits,
    h.aliases.elsewhere hlate⟩, hfit⟩, ?_⟩
  unfold extended Model.unplaced
  simp only [map_append, map_unplaced_kept hlate, hscales]

end Elaborate

namespace Model

open Elaborate

/-! ### The same families -/

theorem fill_map {α : Type} {waits : α → Bool} {put : α → FamilyId → α} {g : α → α}
    (hwaits : ∀ x, waits (g x) = waits x) (hput : ∀ x f, put (g x) f = g (put x f)) (xs : List α)
    (fs : List FamilyId) : fill waits put (xs.map g) fs = (fill waits put xs fs).map g := by
  induction xs generalizing fs with
  | nil => rfl
  | cons x xs ih =>
    rw [map_cons]
    cases hx : waits x with
    | false => rw [fill_cons_of_neg hx, fill_cons_of_neg ((hwaits x).trans hx), ih, map_cons]
    | true =>
      cases fs with
      | nil => rw [fill, if_pos ((hwaits x).trans hx), fill, if_pos hx, map_cons]
      | cons f fs =>
        rw [fill_cons_of_pos hx, fill_cons_of_pos ((hwaits x).trans hx), ih, map_cons, hput]

section Numbers

variable (firstFamily : FamilyId) (m : Model)

theorem familyIds_unplaced : m.unplaced.familyIds = m.familyIds := by
  simp only [familyIds, unplaced, filterMap_map]
  rfl

theorem unitNumbering_unplaced :
    m.unplaced.unitNumbering firstFamily = m.unitNumbering firstFamily := by
  simp only [unitNumbering, firstFree, firstNumber?, maxFamily?, familyIds_unplaced]
  simp only [unitFamilies, unplaced, filterMap_map]
  rfl

theorem unitKeys_unplaced : m.unplaced.unitKeys = m.unitKeys := by
  simp only [unitKeys, unplaced, filter_map, map_map]
  rfl

theorem numberedUnits_unplaced :
    m.unplaced.numberedUnits firstFamily = (m.numberedUnits firstFamily).map (·.unplaced) := by
  rw [numberedUnits, unitNumbering_unplaced, unitKeys_unplaced]
  refine fill_map ?_ ?_ _ _
  · exact fun _ => rfl
  · exact fun _ _ => rfl

theorem unitFamily?_unplaced (units : List UnitEntry) :
    unitFamily? (units.map (·.unplaced)) = unitFamily? units := by
  funext s
  simp only [unitFamily?, getElem?_map]
  refine congrArg _ (funext fun i => ?_)
  cases units[i]? <;> rfl

theorem scaleNumbering_unplaced :
    m.unplaced.scaleNumbering firstFamily = m.scaleNumbering firstFamily := by
  simp only [scaleNumbering, scaleFamilies, numberedUnits_unplaced, unitFamily?_unplaced,
    unitNumbering_unplaced, unitKeys_unplaced]
  rw [unplaced, filterMap_map]
  rfl

theorem scaleKeys_unplaced : m.unplaced.scaleKeys firstFamily = m.scaleKeys firstFamily := by
  simp only [scaleKeys, numberedUnits_unplaced, ScaleEntry.waits, ScaleEntry.familyKey,
    unitFamily?_unplaced]
  rw [unplaced, filter_map, map_map]
  rfl

theorem numberedScales_unplaced :
    m.unplaced.numberedScales firstFamily = (m.numberedScales firstFamily).map (·.unplaced) := by
  simp only [numberedScales, scaleNumbering_unplaced, scaleKeys_unplaced, numberedUnits_unplaced,
    ScaleEntry.waits, unitFamily?_unplaced]
  refine fill_map ?_ ?_ _ _
  · exact fun _ => rfl
  · exact fun _ _ => rfl

theorem hasRoom_unplaced : m.unplaced.HasRoom firstFamily ↔ m.HasRoom firstFamily := by
  simp only [HasRoom, openedFamilies, familyIds_unplaced, unitNumbering_unplaced,
    unitKeys_unplaced, scaleNumbering_unplaced, scaleKeys_unplaced]

end Numbers

theorem unplaced_linkUnit (units : List UnitEntry) (u : UnitEntry) (i : Nat) :
    (linkUnit units u i).unplaced = linkUnit (units.map (·.unplaced)) u.unplaced i := by
  have hunits : linkUnit (units.map (·.unplaced)) = linkUnit units := linkUnit_congr map_map
  rw [hunits]
  cases hf : validFamily u with
  | none => rw [linkUnit_of_none hf, linkUnit_of_none (by exact hf)]
  | some f =>
    have hf' : validFamily u.unplaced = some f := hf
    rw [linkUnit_of_some hf, linkUnit_of_some hf']
    rfl

theorem unplaced_linkScale (scales : List ScaleEntry) (s : ScaleEntry) (i : Nat) :
    (linkScale scales s i).unplaced = linkScale (scales.map (·.unplaced)) s.unplaced i := by
  have hscales : linkScale (scales.map (·.unplaced)) = linkScale scales :=
    linkScale_congr map_map
  rw [hscales]
  cases hf : validScaleFamily s with
  | none => rw [linkScale_of_none hf, linkScale_of_none (by exact hf)]
  | some f =>
    have hf' : validScaleFamily s.unplaced = some f := hf
    rw [linkScale_of_some hf, linkScale_of_some hf']
    rfl

theorem unplaced_connected (m : Model) (units : List UnitEntry) (scales : List ScaleEntry) :
    (m.connected units scales).unplaced =
      m.unplaced.connected (units.map (·.unplaced)) (scales.map (·.unplaced)) := by
  unfold unplaced connected
  congr 1
  · refine ext_getElem? fun i => ?_
    simp only [getElem?_map, getElem?_mapIdx, Option.map_map]
    exact congrArg (Option.map · units[i]?) (funext fun u => unplaced_linkUnit units u i)
  · refine ext_getElem? fun i => ?_
    simp only [getElem?_map, getElem?_mapIdx, Option.map_map]
    exact congrArg (Option.map · scales[i]?) (funext fun s => unplaced_linkScale scales s i)

/-- Whether a unit can be related to its prime does not depend on places. -/
theorem relationErrors_unplaced_eq_nil_iff (units : List UnitEntry) :
    relationErrors (units.map (·.unplaced)) = [] ↔ relationErrors units = [] := by
  have hkeys : (units.map (·.unplaced)).map linkKey = units.map linkKey := map_map
  exact ⟨relationErrors_eq_nil_congr hkeys, relationErrors_eq_nil_congr hkeys.symm⟩

/-- **Operations do not depend on places.** -/
theorem unplaced_resolveOperations (m : Model) :
    m.resolveOperations.unplaced = m.unplaced.resolveOperations := by
  have htable : operationTable (m.units.map (·.unplaced)) = operationTable m.units :=
    operationTable_congr map_map
  simp only [resolveOperations, unplaced, htable]
  congr 1
  refine ext_getElem? fun i => ?_
  simp only [getElem?_map, getElem?_mapIdx, Option.map_map]
  rfl

/-- **Neither families nor operations depend on places.** -/
theorem unplaced_resolved (m : Model) (firstFamily : FamilyId) :
    (m.resolved firstFamily).unplaced = m.unplaced.resolved firstFamily := by
  unfold resolved
  rw [unplaced_resolveOperations, unplaced_connected, numberedUnits_unplaced,
    numberedScales_unplaced]

/-! ### The same models -/

section Extend

variable {options : Options} {m : Model} {decls : Declarations} {late : List UnitEntry}
  {scales : List ScaleEntry}

/-- **A text without errors adds the meaning of its declarations**, and all units of a family can
be related. -/
theorem exists_sound_of_extend (hc : m.extend text options = .ok c) (hok : c.isSuccess = true) :
    ∃ late scales, Sound options m (Declarations.read options.source text).1 late scales ∧
      (extended options m late scales).HasRoom options.firstFamily ∧
      relationErrors ((extended options m late scales).numberedUnits options.firstFamily) = [] ∧
      c.model = (extended options m late scales).resolved options.firstFamily := by
  obtain ⟨e, ds, helab, hroom, rfl⟩ := exists_finished hc
  have hok : (e.finished ds options.firstFamily).diagnostics.hasErrors = false :=
    (Bool.not_eq_true' _).mp hok
  rw [finished, hasErrors_pushAll_relationErrors] at hok
  obtain ⟨late, scales, hsound, rfl, rfl⟩ := elaborate_noErrors helab hok.1
  exact ⟨late, scales, hsound, hroom, hok.2, rfl⟩

/-- **A text with the same declarations elsewhere leaves the same model**, but for places. -/
theorem exists_extend_elsewhere (h : Sound options m decls late scales)
    (hroom : (extended options m late scales).HasRoom options.firstFamily)
    (hrelated : relationErrors ((extended options m late scales).numberedUnits options.firstFamily)
      = []) (hread : (Declarations.read options.source text).2.hasErrors = false)
    (hdecls : (Declarations.read options.source text).1.unplaced = decls.unplaced) :
    ∃ c, m.extend text options = .ok c ∧ c.isSuccess = true ∧ c.model.unplaced =
      ((extended options m late scales).resolved options.firstFamily).unplaced := by
  obtain ⟨late', scales', hsound, hextended⟩ := h.elsewhere hdecls
  rw [← hasRoom_unplaced, ← hextended, hasRoom_unplaced] at hroom
  refine ⟨_, (extend_eq (hsound.elaborate _)).trans (if_pos hroom), ?_, ?_⟩
  · have hnone : relationErrors
        ((extended options m late' scales').numberedUnits options.firstFamily) = [] := by
      rw [← relationErrors_unplaced_eq_nil_iff, ← numberedUnits_unplaced, hextended,
        numberedUnits_unplaced, relationErrors_unplaced_eq_nil_iff]
      exact hrelated
    refine (Bool.not_eq_true' _).mpr ?_
    rw [finished, hasErrors_pushAll_relationErrors]
    exact ⟨hread, hnone⟩
  · rw [finished, unplaced_resolved, hextended, unplaced_resolved]

end Extend

end Model

end Quantity
