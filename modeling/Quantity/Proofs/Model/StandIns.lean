import Quantity.Proofs.Model.Frame
import Quantity.Proofs.Model.Unplaced

/-!
# Units that stand for earlier ones

Where late units may stand for earlier ones, a declaration of a name that is known adds no unit. It
still counts while the units are encoded: what refers to its name is encoded with the late unit, and
only then the earlier one takes its place. `Sound.withoutUnit` says when the declaration can be left
out: nothing refers to it, or the model holds the same under its name. `agree` is less than that,
since it allows for small differences between factors and does not look at whether they are known.
-/

namespace Quantity

open List

/-- The declarations without the one of the unit at a place. -/
def Declarations.withoutUnit (ds : Declarations) (k : Nat) : Declarations :=
  { ds with units := ds.units.eraseIdx k }

namespace Elaborate

variable {options : Options} {m : Model} {us : List UnitDecl} {late : List UnitEntry}

/-! ### What is known under a name -/

/-- What is known of the last unit of a name. -/
def known : Option UnitEntry → Lookup
  | none => .unknown
  | some u => if u.valid then .resolved u.summary else .invalid

theorem bind_findUnit? (units : List UnitEntry) (name : String) :
    (Model.findUnit? { units } name).bind (units[·]?) = units.reverse.find? (·.name = name) := by
  unfold Model.findUnit?
  induction units using List.reverseRecOn with
  | nil => rfl
  | append_singleton units u ih =>
    rw [Model.places_append_singleton, reverse_append, reverse_singleton,
      singleton_append, find?_cons]
    by_cases hu : u.name = name
    · simp [hu]
    · simp only [hu, decide_false, Bool.false_eq_true, if_false, append_nil]
      rw [← ih]
      cases hlast : (Model.places units (·.name = name)).getLast? with
      | none => rfl
      | some i => exact getElem?_append_left (Model.getLast?_places_lt hlast)

/-- **A name is known for the last unit of that name.** -/
theorem lookup_scopeOf (units : List UnitEntry) (name : String) :
    (scopeOf units).lookup name = known (units.reverse.find? (·.name = name)) := by
  have hnames : (scopeOf units).names.get? name = Model.findUnit? { units } name :=
    get?_start_names _ _ name
  rw [← bind_findUnit?]
  unfold Scope.lookup
  rw [hnames]
  cases hi : Model.findUnit? { units } name with
  | none => rfl
  | some i =>
    obtain ⟨u, hu, -⟩ := Model.exists_of_findUnit? hi
    have hunits : (scopeOf units).units[i]? = some u := hu
    have hstate : (scopeOf units).states[i]? = some (if u.valid then .done
        else .failed (.error .semantic ("Unit '" ++ u.name ++ "' is invalid"))) := by
      refine getElem?_map.trans ?_
      rw [show units[i]? = some u from hu]
      rfl
    rw [Option.bind_some, show units[i]? = some u from hu]
    simp only [Scope.state, getD_eq_getElem?_getD, hstate, hunits]
    cases hvalid : u.valid <;> simp [known, hvalid]

/-- An earlier unit that agrees with a late one and has its factor, in value and in whether it is
known, is all that expressions need of the late one. -/
theorem lookup_of_agree (hi : m.findUnit? u.name = some i) (hearly : m.units[i]? = some early)
    (hvalid : early.valid = true) (hagree : agree u early = true)
    (hvalue : u.factor.value = early.factor.value)
    (hconstant : u.factor.constant = early.factor.constant) :
    (scopeOf m.units).lookup u.name = .resolved u.summary := by
  obtain ⟨v, hv, hname⟩ := Model.exists_of_findUnit? hi
  obtain rfl : early = v := Option.some.inj (hearly.symm.trans hv)
  simp only [agree, Bool.and_eq_true, decide_eq_true_eq] at hagree
  obtain ⟨⟨hkind, hdimension⟩, -⟩ := hagree
  have hfind := bind_findUnit? m.units u.name
  rw [show Model.findUnit? { units := m.units } u.name = some i from hi, Option.bind_some,
    hearly] at hfind
  rw [lookup_scopeOf, ← hfind, known, if_pos hvalid, UnitEntry.summary, UnitEntry.summary, hname,
    hkind, hdimension, hvalue, hconstant]

theorem cause?_of_resolved {s : Scope} (h : s.lookup name = .resolved u) :
    s.cause? name = none := by
  unfold Scope.lookup at h
  unfold Scope.cause?
  cases hi : s.names.get? name with
  | none => rfl
  | some i =>
    rw [hi] at h
    dsimp only at h
    cases hs : s.state i with
    | pending => simp [hs]
    | done => simp [hs]
    | failed why =>
      rw [hs] at h
      cases h

/-- A declaration with a meaning keeps it as long as its references lead to the same units. -/
theorem encodeUnit_of_lookup (he : encodeUnit s kind d = .ok e)
    (h : ∀ name ∈ d.references, t.lookup name = s.lookup name) : encodeUnit t kind d = .ok e := by
  refine (encodeUnit_stable fun name hname => .inr ⟨h name hname, ?_⟩).eq_ok he
  obtain ⟨u, hu⟩ := resolved_of_encodeUnit he name hname
  rw [cause?_of_resolved hu, cause?_of_resolved ((h name hname).trans hu)]

/-! ### One declaration less -/

section Without

variable {k : Nat} {u : UnitEntry}

theorem exists_eraseIdx (hx : xs[k]? = some x) :
    ∃ before behind, xs = before ++ x :: behind ∧ xs.eraseIdx k = before ++ behind := by
  obtain ⟨hlt, rfl⟩ := List.getElem?_eq_some_iff.mp hx
  refine ⟨xs.take k, xs.drop (k + 1), ?_, eraseIdx_eq_take_drop_succ ..⟩
  rw [← drop_eq_getElem_cons hlt, take_append_drop]

/-- **Without a late unit, its name leads to the earlier unit**, and all other names lead where they
did. -/
theorem lookup_eraseIdx (hu : late[k]? = some u) (hnodup : (late.map (·.name)).Nodup)
    (hvalid : u.valid = true)
    (hname : u.name = name → (scopeOf m.units).lookup name = .resolved u.summary) :
    (scopeOf (m.units ++ late.eraseIdx k)).lookup name =
      (scopeOf (m.units ++ late)).lookup name := by
  obtain ⟨before, behind, rfl, herase⟩ := exists_eraseIdx hu
  rw [lookup_scopeOf] at hname
  rw [herase, lookup_scopeOf, lookup_scopeOf]
  simp only [reverse_append, reverse_cons, find?_append]
  by_cases heq : u.name = name
  · -- no other late unit has the name
    have hnone (units : List UnitEntry) (hunits : ∀ v ∈ units, v.name ≠ u.name) :
        units.reverse.find? (·.name = name) = none := by
      simpa [← heq] using hunits
    rw [map_append, map_cons, nodup_append, nodup_cons] at hnodup
    obtain ⟨-, ⟨hbehind, -⟩, hbefore⟩ := hnodup
    rw [hnone before, hnone behind, Option.none_or, Option.none_or, hname heq]
    · simp [heq, known, hvalid]
    · exact fun v hv hvn => hbehind (mem_map.mpr ⟨v, hv, hvn⟩)
    · exact fun v hv => hbefore _ (mem_map_of_mem hv) _ (mem_cons_self ..)
  · simp [heq]

/-- The place that an entry had before the one at a place was left out. -/
def placeBefore (k j : Nat) : Nat := if j < k then j else j + 1

theorem getElem?_eraseIdx_eq (xs : List α) (k j : Nat) :
    (xs.eraseIdx k)[j]? = xs[placeBefore k j]? := by
  rw [getElem?_eraseIdx, placeBefore]
  split_ifs <;> rfl

/-- **A declaration can be left out** if whatever refers to it finds the same in the model. -/
theorem IsSolution.eraseIdx (h : IsSolution options m us late) (hdiffer : us.Pairwise Differ)
    (hu : late[k]? = some u)
    (hsame : (∃ d ∈ us, u.name ∈ d.references) →
      (scopeOf m.units).lookup u.name = .resolved u.summary) :
    IsSolution options m (us.eraseIdx k) (late.eraseIdx k) where
  length := by
    rw [length_eraseIdx, length_eraseIdx, h.length]
  meaning := by
    intro j d hj
    rw [getElem?_eraseIdx_eq] at hj ⊢
    obtain ⟨e, he, hlate⟩ := h.meaning _ d hj
    refine ⟨e, encodeUnit_of_lookup he fun name hname => ?_, hlate⟩
    have hnodup : (late.map (·.name)).Nodup := h.names ▸ nodup_names hdiffer
    refine lookup_eraseIdx hu hnodup (h.valid u (mem_of_getElem? hu)) fun heq => ?_
    subst heq
    exact hsame ⟨d, mem_of_getElem? hj, hname⟩
  wellFounded := by
    refine Subrelation.wf ?_ (InvImage.wf (placeBefore k) h.wellFounded)
    rintro l j ⟨d, d', hj, hl, href⟩
    rw [getElem?_eraseIdx_eq] at hj hl
    exact ⟨d, d', hj, hl, href⟩

theorem AllAdmitted.eraseIdx (h : AllAdmitted options m us) (k : Nat) :
    AllAdmitted options m (us.eraseIdx k) where
  differ := h.differ.sublist (eraseIdx_sublist ..)
  admits := fun d hd => h.admits d (mem_of_mem_eraseIdx hd)

/-- A late unit that stands for another one is not among those that stay. -/
theorem kept_eraseIdx (hu : late[k]? = some u) (hstands : standsFor options m u = true) :
    kept options m (late.eraseIdx k) = kept options m late := by
  obtain ⟨before, behind, rfl, herase⟩ := exists_eraseIdx hu
  rw [herase]
  simp [kept, hstands]

theorem Sound.withoutUnit (h : Sound options m decls late scales) (hu : late[k]? = some u)
    (hstands : standsFor options m u = true)
    (hsame : (∃ d ∈ decls.units, u.name ∈ d.references) →
      (scopeOf m.units).lookup u.name = .resolved u.summary) :
    Sound options m (decls.withoutUnit k) (late.eraseIdx k) scales where
  admitted := h.admitted.eraseIdx k
  solution := h.solution.eraseIdx h.admitted.differ hu hsame
  aliases := fun hpolicy v hv => h.aliases hpolicy v (mem_of_mem_eraseIdx hv)
  scalesFit := by
    rw [kept_eraseIdx hu hstands]
    exact h.scalesFit

end Without

theorem Fitting.exists_encodeUnits (h : Fitting options m us late) (ds : Diagnostics) :
    ∃ q, encodeUnits options (declareUnits options m.units.length (start m ds) {} us).1
        (declareUnits options m.units.length (start m ds) {} us).2.pending = .ok q ∧
      q.units = m.units ++ late := by
  rcases declareUnits_cases us (allWait_start options m ds) ⟨.nil, nofun⟩ with
    ⟨hadmitted, hp⟩ | ⟨hnot, -⟩
  · rw [nil_append] at hadmitted hp
    obtain ⟨q, hq, hsolved⟩ := h.solution.exists_encodeUnits hp hadmitted.differ
    exact ⟨q, hq, hsolved.units⟩
  · exact absurd h.admitted hnot

end Elaborate

namespace Model

open Elaborate

/-- The unit that the passes find for a declaration of a text, before it is compared with an
earlier one. -/
def found? (m : Model) (text : String) (options : Options) (k : Nat) : Option UnitEntry := do
  let (declarations, diagnostics) := Declarations.read options.source text
  let (p, todo) := declareUnits options m.units.length (start m diagnostics) {} declarations.units
  let q ← (encodeUnits options p todo.pending).toOption
  q.units[m.units.length + k]?

theorem found?_eq (h : Fitting options m (Declarations.read options.source text).1.units late)
    (k : Nat) : m.found? text options k = late[k]? := by
  obtain ⟨q, hq, hunits⟩ := h.exists_encodeUnits (Declarations.read options.source text).2
  unfold found?
  dsimp only
  rw [hq]
  show q.units[m.units.length + k]? = late[k]?
  rw [hunits, getElem?_append_right (Nat.le_add_right ..), Nat.add_sub_cancel_left]

/-- **A declaration that stands for an earlier unit can be left out** if its factor is that of the
earlier unit, in value and in whether it is known, or if nothing refers to it: every text with the
other declarations leaves the same model, but for places. -/
theorem extend_withoutUnit {m : Model} {text : String} {options : Options} {c : Compilation}
    {k i : Nat} {d : UnitDecl} {early : UnitEntry} (hpolicy : options.redeclaration = .sameUnit)
    (hc : m.extend text options = .ok c) (hok : c.isSuccess = true)
    (hk : (Declarations.read options.source text).1.units[k]? = some d)
    (hi : m.findUnit? d.name = some i) (hearly : m.units[i]? = some early)
    (hvalid : early.valid = true) :
    ∃ late, m.found? text options k = some late ∧ agree late early = true ∧
      (late.factor.value = early.factor.value ∧ late.factor.constant = early.factor.constant ∨
          (∀ d' ∈ (Declarations.read options.source text).1.units, d.name ∉ d'.references) →
        ∀ text', (Declarations.read options.source text').2.hasErrors = false →
          (Declarations.read options.source text').1.unplaced =
            ((Declarations.read options.source text).1.withoutUnit k).unplaced →
          ∃ c', m.extend text' options = .ok c' ∧ c'.isSuccess = true ∧
            c'.model.unplaced = c.model.unplaced) := by
  obtain ⟨late, scales, hsound, hroom, hrelated, hmodel⟩ := exists_sound_of_extend hc hok
  obtain ⟨e, -, hu⟩ := hsound.solution.meaning k d hk
  generalize hdef : complete options d e (fresh options d (redeclares options m d)) = u at hu
  have hname : u.name = d.name := hdef ▸ rfl
  have hagree : agree u early = true :=
    hsound.aliases hpolicy u (mem_of_getElem? hu) i early (hname ▸ hi) hearly
  refine ⟨u, (found?_eq hsound.toFitting k).trans hu, hagree, ?_⟩
  intro hsame text' hread hdecls
  have hstands : standsFor options m u = true := by
    simp [standsFor, hpolicy, hname, hi]
  -- what refers to the late unit finds the same in the earlier one
  have hlookup : (∃ d' ∈ (Declarations.read options.source text).1.units, u.name ∈ d'.references) →
      (scopeOf m.units).lookup u.name = .resolved u.summary := by
    rintro ⟨d', hd', href⟩
    rcases hsame with ⟨hvalue, hconstant⟩ | hnone
    · exact lookup_of_agree (hname ▸ hi) hearly hvalid hagree hvalue hconstant
    · exact absurd (hname ▸ href) (hnone d' hd')
  have hextended :
      extended options m (late.eraseIdx k) scales = extended options m late scales := by
    unfold extended
    rw [kept_eraseIdx hu hstands]
  obtain ⟨c', hc', hok', hmodel'⟩ := exists_extend_elsewhere
    (hsound.withoutUnit hu hstands hlookup) (hextended ▸ hroom) (hextended ▸ hrelated) hread hdecls
  exact ⟨c', hc', hok', by rw [hmodel', hextended, hmodel]⟩

def yards : String := "unit Yard \"yd\" = 3 * Foot;"

def feetAndYards : String := "unit Foot \"ft\" = 0.3 * Meter; unit Yard \"yd\" = 3 * Foot;"

/-- Feet that are declared again with the same factor can be left out, though yards refer
to them. -/
theorem extend_withoutUnit_feetAndYards :
    ∃ c d d', compile lengths { kind := .decimal } = .ok c ∧
      c.model.extend feetAndYards { kind := .decimal, redeclaration := .sameUnit } = .ok d ∧
      d.isSuccess = true ∧
      c.model.extend yards { kind := .decimal, redeclaration := .sameUnit } = .ok d' ∧
      d'.isSuccess = true ∧ d'.model.unplaced = d.model.unplaced := by
  obtain ⟨c, hc, ⟨d, hd, hok, hi, hearly⟩, hsame⟩ : ∃ c, compile lengths { kind := .decimal } = .ok c ∧
      (∃ d, c.model.extend feetAndYards { kind := .decimal, redeclaration := .sameUnit } = .ok d ∧
        d.isSuccess = true ∧ c.model.findUnit? "Foot" = some 1 ∧
        c.model.units[1]?.map (·.valid) = some true) ∧
      (c.model.found? feetAndYards { kind := .decimal, redeclaration := .sameUnit } 0).map
          (fun u => (u.factor.value, u.factor.constant)) =
        c.model.units[1]?.map fun u => (u.factor.value, u.factor.constant) := by
    decide +kernel
  have hfoot : (Declarations.read none feetAndYards).1.units[0]?.map (·.name) = some "Foot" := by
    decide +kernel
  have hread : (Declarations.read none yards).2.hasErrors = false ∧
      (Declarations.read none yards).1.unplaced =
        ((Declarations.read none feetAndYards).1.withoutUnit 0).unplaced := by
    decide +kernel
  obtain ⟨early, hearly, hvalid⟩ := Option.map_eq_some_iff.mp hearly
  obtain ⟨foot, hfoot, hname⟩ := Option.map_eq_some_iff.mp hfoot
  rw [hearly] at hsame
  rw [← hname] at hi
  obtain ⟨late, hlate, -, hleave⟩ := @extend_withoutUnit c.model feetAndYards
    { kind := .decimal, redeclaration := .sameUnit } d 0 1 foot early rfl hd hok hfoot hi hearly
    hvalid
  rw [hlate, Option.map_some, Option.map_some, Option.some.injEq, Prod.mk.injEq] at hsame
  obtain ⟨d', hd', hok', hmodel⟩ := hleave (.inl hsame) yards hread.1 hread.2
  exact ⟨c, d, d', hc, hd, hok, hd', hok', hmodel⟩

/-- Feet with a factor that is not known, and yards in feet. -/
def symbolicFeet : String :=
  "unit Foot \"ft\" = 0.3 * \"k\" * Meter; unit Yard \"yd\" = 3 * Foot;"

/-- **Feet that stand for the earlier ones cannot always be left out**: the factor of yards is not
known if they are declared over feet whose factor is not, and it is known without these. -/
theorem extend_symbolicFeet :
    ∃ c d d', compile lengths { kind := .decimal } = .ok c ∧
      (Declarations.read none yards).1.unplaced =
        ((Declarations.read none symbolicFeet).1.withoutUnit 0).unplaced ∧
      (c.model.settle "lengths").extend symbolicFeet
        { kind := .decimal, redeclaration := .sameUnit } = .ok d ∧
      (c.model.settle "lengths").extend yards
        { kind := .decimal, redeclaration := .sameUnit } = .ok d' ∧
      d.isSuccess = true ∧ d'.isSuccess = true ∧
      d.model.units.map (fun u => (u.name, u.factor.constant)) =
        [("Meter", true), ("Foot", true), ("Yard", false)] ∧
      d'.model.units.map (fun u => (u.name, u.factor.constant)) =
        [("Meter", true), ("Foot", true), ("Yard", true)] := by
  simp only [exists_and_left]
  decide +kernel

end Model

end Quantity
