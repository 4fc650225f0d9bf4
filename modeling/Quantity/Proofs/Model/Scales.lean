import Quantity.Proofs.Model.Aliases

/-!
# Scales without errors

Scales are given their meaning one after the other, once all units are known. `elaborate_noErrors`
and `Sound.elaborate` say which declarations of units and scales get a meaning without an error,
and which entries they add to a model.
-/

namespace Quantity

open List

theorem Diagnostics.hasErrors_pushAll (ds : Diagnostics) (more : List Diagnostic) :
    (ds.pushAll more).hasErrors = (ds.hasErrors || more.any (·.isError)) := by
  induction more generalizing ds with
  | nil => exact (Bool.or_false _).symm
  | cons d more ih =>
    refine (ih _).trans ?_
    rw [hasErrors_push, any_cons, Bool.or_assoc]

namespace Elaborate

variable {options : Options} {m : Model} {s t : Scope} {late : List UnitEntry}

/-! ### One scale -/

theorem bareScale_congr (h : s.Alike t) (d : ScaleDecl) :
    bareScale options s d = bareScale options t d := by
  unfold bareScale
  rw [h.names]

theorem encodeScale_congr (h : s.Alike t) (d : ScaleDecl) (bare : ScaleEntry) :
    encodeScale s d bare = encodeScale t d bare := by
  have hlookup : s.lookup = t.lookup := funext fun name => (h.lookup name).1
  have hcause : s.cause? = t.cause? := funext fun name => (h.lookup name).2
  unfold encodeScale Scope.state
  rw [hlookup, hcause, h.states, h.units]

theorem declareScale_congr (h : s.Alike t) (lateUnits lateScales : Nat) :
    declareScale options lateUnits lateScales s = declareScale options lateUnits lateScales t := by
  funext p d
  unfold declareScale scaleNameError?
  dsimp only
  rw [bareScale_congr h, encodeScale_congr h, h.names]

/-- A scale needs a unit that is done, and an offset with a value in the kind of this unit. -/
theorem encodeScale_eq_ok_iff :
    encodeScale s d bare = .ok scale ↔ ∃ i u offset, bare.unit = some i ∧ s.state i = .done ∧
      s.units[i]? = some u ∧ d.offset.encodeValue s.lookup u.kind = .ok offset ∧
      scale = { bare with
        offset
        format := if bare.format.isEmpty then u.format else bare.format
        valid := true } := by
  constructor
  · intro h
    unfold encodeScale at h
    split at h
    · cases h
    · rename_i i hi
      split at h
      · rename_i u hstate hu
        split at h
        · rename_i offset hoffset
          cases h
          exact ⟨i, u, offset, hi, hstate, hu, hoffset, rfl⟩
        · cases h
      · cases h
      · cases h
  · rintro ⟨i, u, offset, hi, hstate, hu, hoffset, rfl⟩
    simp only [encodeScale, hi, hstate, hu, hoffset]

theorem isError_of_encodeScale (h : encodeScale s d bare = .error why) : why.isError = true := by
  unfold encodeScale at h
  split at h
  · cases h
    rfl
  · split at h
    · split at h
      · cases h
      · cases h
        rw [isError_withCause]
        rfl
    · cases h
      rfl
    · cases h
      rfl

theorem isError_of_scaleNameError?
    (h : scaleNameError? options lateUnits lateScales s names d = some why) :
    why.isError = true := by
  unfold scaleNameError? at h
  split at h
  · cases h
    rfl
  · split at h
    · cases h
    · split_ifs at h <;> cases h <;> rfl

/-- A declaration of a scale fits the units of a model with late ones, and has a meaning. -/
structure ScaleFits (options : Options) (m : Model) (late : List UnitEntry) (d : ScaleDecl)
    (scale : ScaleEntry) : Prop where
  apart : ∀ u ∈ late, u.name ≠ d.name
  name : options.redeclaration = .reject → m.findScale? d.name = none
  meaning : encodeScale (scopeOf (m.units ++ late)) d
    (bareScale options (scopeOf (m.units ++ late)) d) = .ok scale

/-- A scale without an error in its name and in its offset is added. -/
theorem declareScale_eq (hname : scaleNameError? options lateUnits lateScales s p.names d = none)
    (hs : encodeScale s d (bareScale options s d) = .ok scale) :
    declareScale options lateUnits lateScales s p d =
      { scales := p.scales ++ [scale]
        names := if (p.names.get? d.name).any (lateScales ≤ ·) then p.names
          else p.names.insert d.name p.scales.length
        diagnostics := p.diagnostics } := by
  unfold declareScale
  dsimp only
  rw [hname]
  rw [hs]
  rfl

theorem hasErrors_declareScale (d : ScaleDecl) (h : p.diagnostics.hasErrors = true) :
    (declareScale options lateUnits lateScales s p d).diagnostics.hasErrors = true := by
  unfold declareScale
  rw [Diagnostics.hasErrors_pushAll, h, Bool.true_or]

theorem hasErrors_declareScales (decls : List ScaleDecl) (h : p.diagnostics.hasErrors = true) :
    (decls.foldl (declareScale options lateUnits lateScales s) p).diagnostics.hasErrors = true := by
  induction decls generalizing p with
  | nil => exact h
  | cons d decls ih => exact ih (hasErrors_declareScale d h)

/-- A scale with an error in its name or in its offset is reported. -/
theorem hasErrors_declareScale_of
    (h : scaleNameError? options lateUnits lateScales s p.names d = none →
      ∀ scale, encodeScale s d (bareScale options s d) ≠ .ok scale) :
    (declareScale options lateUnits lateScales s p d).diagnostics.hasErrors = true := by
  unfold declareScale
  rw [Diagnostics.hasErrors_pushAll]
  cases hname : scaleNameError? options lateUnits lateScales s p.names d with
  | some why => simp [isError_of_scaleNameError? hname]
  | none =>
    cases hs : encodeScale s d (bareScale options s d) with
    | ok scale => exact absurd hs (h hname scale)
    | error why => simp [isError_of_encodeScale hs]

/-! ### All scales -/

/-- Scales that were declared without an error, each behind those of the model. -/
structure ScalesDone (options : Options) (m : Model) (ds : Diagnostics) (late : List UnitEntry)
    (done : List ScaleDecl) (added : List ScaleEntry) (p : ScaleProgress) : Prop where
  scales : p.scales = m.scales ++ added
  names : Owners (fun d => [d.name]) m.findScale? m.scales.length done p.names
  diagnostics : p.diagnostics = ds
  nodup : (done.map (·.name)).Nodup
  fits : List.Forall₂ (ScaleFits options m late) done added

variable {ds : Diagnostics} {done : List ScaleDecl} {added : List ScaleEntry} {p : ScaleProgress}

theorem scalesDone_start (options : Options) (m : Model) (ds : Diagnostics)
    (late : List UnitEntry) :
    ScalesDone options m ds late [] [] ⟨m.scales, scaleNames m, ds⟩ where
  scales := (append_nil _).symm
  names := .nil (get?_foldl_names ScaleEntry.name m.scales)
  diagnostics := rfl
  nodup := nodup_nil
  fits := .nil

/-- A name leads to a late unit exactly if there is one of that name. -/
theorem any_le_scopeOf (name : String) :
    ((scopeOf (m.units ++ late)).names.get? name).any (m.units.length ≤ ·) =
      late.any (·.name = name) := by
  have hnames : (scopeOf (m.units ++ late)).names.get? name = _ := get?_start_names _ _ name
  rw [hnames, Model.findUnit?_append]
  cases hn : Model.findUnit? { units := late } name with
  | some k =>
    obtain ⟨u, hu, hname⟩ := Model.mem_places.mp (mem_of_getLast? hn)
    have : late.any (·.name = name) = true := any_eq_true.mpr ⟨u, mem_of_getElem? hu, hname⟩
    simp [this]
  | none =>
    have : late.any (·.name = name) = false := by
      rw [any_eq_false]
      intro u hu hname
      exact Model.findUnit?_eq_none_iff.mp hn u hu (of_decide_eq_true hname)
    rw [this]
    cases hm : Model.findUnit? { units := m.units } name with
    | none => rfl
    | some i =>
      have := Model.getLast?_places_lt hm
      simpa using this

/-- What speaks against the name of a scale: a late unit or a late scale of that name, or an
earlier scale that may not be redeclared. -/
theorem ScalesDone.scaleNameError?_eq_none_iff (h : ScalesDone options m ds late done added p)
    (d : ScaleDecl) :
    scaleNameError? options m.units.length m.scales.length (scopeOf (m.units ++ late)) p.names d =
        none ↔
      (∀ u ∈ late, u.name ≠ d.name) ∧ (∀ d' ∈ done, d'.name ≠ d.name) ∧
        (options.redeclaration = .reject → m.findScale? d.name = none) := by
  unfold scaleNameError?
  rw [any_le_scopeOf]
  by_cases hunit : ∃ u ∈ late, u.name = d.name
  · obtain ⟨u, hu, hname⟩ := hunit
    rw [if_pos (any_eq_true.mpr ⟨u, hu, decide_eq_true hname⟩)]
    exact iff_of_false nofun fun hall => hall.1 u hu hname
  · have hunit : ∀ u ∈ late, u.name ≠ d.name := fun u hu hname => hunit ⟨u, hu, hname⟩
    rw [if_neg (by simpa using hunit), and_iff_right hunit]
    by_cases hscale : ∃ d' ∈ done, d'.name = d.name
    · obtain ⟨d', hd', hname⟩ := hscale
      obtain ⟨k, hk⟩ := mem_iff_getElem?.mp hd'
      rw [h.names.late hk (mem_singleton.mpr hname.symm)]
      dsimp only
      rw [if_pos (Nat.le_add_right _ _)]
      exact iff_of_false nofun fun hall => hall.1 d' hd' hname
    · have hscale : ∀ d' ∈ done, d'.name ≠ d.name := fun d' hd' hname => hscale ⟨d', hd', hname⟩
      rw [and_iff_right hscale,
        h.names.early fun d' hd' hmem => hscale d' hd' (mem_singleton.mp hmem).symm]
      cases hm : m.findScale? d.name with
      | none => exact iff_of_true rfl fun _ => rfl
      | some i =>
        dsimp only
        rw [if_neg (Nat.not_le.mpr (Model.getLast?_places_lt hm))]
        by_cases hpolicy : options.redeclaration = .reject <;> simp [hpolicy]

/-- **One more scale is added exactly if it fits.** If not, an error is reported. -/
theorem ScalesDone.declareScale_cases (h : ScalesDone options m ds late done added p)
    (d : ScaleDecl) :
    (∃ scale, ScalesDone options m ds late (done ++ [d]) (added ++ [scale])
        (declareScale options m.units.length m.scales.length (scopeOf (m.units ++ late)) p d)) ∨
      (∀ scale, ¬ ((∀ d' ∈ done, d'.name ≠ d.name) ∧ ScaleFits options m late d scale)) ∧
        (declareScale options m.units.length m.scales.length (scopeOf (m.units ++ late)) p
          d).diagnostics.hasErrors = true := by
  by_cases hfits : ∃ scale, (∀ d' ∈ done, d'.name ≠ d.name) ∧ ScaleFits options m late d scale
  · obtain ⟨scale, hne, hfits⟩ := hfits
    have hname := (h.scaleNameError?_eq_none_iff d).mpr ⟨hfits.apart, hne, hfits.name⟩
    have hget : p.names.get? d.name = m.findScale? d.name :=
      h.names.early fun d' hd' hmem => hne d' hd' (mem_singleton.mp hmem).symm
    refine .inl ⟨scale, ?_⟩
    rw [declareScale_eq hname hfits.meaning, if_neg]
    · refine ⟨?_, ?_, h.diagnostics, ?_, ?_⟩
      · rw [h.scales, List.append_assoc]
      · refine h.names.concat (fun key => ?_) fun d' hd' key hkey hkey' => ?_
        · have hlen : p.scales.length = m.scales.length + done.length := by
            rw [h.scales, length_append, h.fits.length_eq]
          rw [hlen]
          by_cases hkey : key = d.name
          · simp [hkey]
          · simp [hkey, Ne.symm hkey]
        · rw [mem_singleton] at hkey hkey'
          exact hne d' hd' (hkey.symm.trans hkey')
      · rw [map_append, nodup_append]
        refine ⟨h.nodup, nodup_singleton _, ?_⟩
        rintro name hmem _ hmem' rfl
        obtain ⟨d', hd', rfl⟩ := mem_map.mp hmem
        exact hne d' hd' (mem_singleton.mp hmem')
      · exact rel_append h.fits (.cons hfits .nil)
    · rw [hget]
      cases hm : m.findScale? d.name with
      | none => exact nofun
      | some i =>
        have := Model.getLast?_places_lt hm
        simpa using this
  · refine .inr ⟨fun scale hscale => hfits ⟨scale, hscale⟩, hasErrors_declareScale_of ?_⟩
    intro hname scale hs
    obtain ⟨hunit, hscale, hpolicy⟩ := (h.scaleNameError?_eq_none_iff d).mp hname
    exact hfits ⟨scale, hscale, hunit, hpolicy, hs⟩


/-- **The scales fit their declarations**: these have different names, nothing speaks against
them, and they have a meaning. -/
structure ScalesFit (options : Options) (m : Model) (late : List UnitEntry)
    (decls : List ScaleDecl) (scales : List ScaleEntry) : Prop where
  nodup : (decls.map (·.name)).Nodup
  fits : List.Forall₂ (ScaleFits options m late) decls scales

theorem ScalesFit.exists_mem (h : ScalesFit options m late decls scales)
    (hs : scale ∈ scales) : ∃ d ∈ decls, ScaleFits options m late d scale :=
  exists_of_forall₂ h.fits.flip hs

theorem ScalesFit.step (h : ScalesFit options m late (done ++ d :: decls) scales) :
    ∃ scale, (∀ d' ∈ done, d'.name ≠ d.name) ∧ ScaleFits options m late d scale := by
  have hdrop := forall₂_drop done.length h.fits
  rw [drop_left] at hdrop
  obtain ⟨scale, -, hscale, -⟩ := forall₂_cons_left_iff.mp hdrop
  refine ⟨scale, fun d' hd' heq => ?_, hscale⟩
  have hnodup := h.nodup
  rw [map_append, nodup_append] at hnodup
  exact hnodup.2.2 _ (mem_map_of_mem hd') _ (mem_map_of_mem (mem_cons_self ..)) heq

/-- **Scales are added exactly if they fit their declarations.** If not, an error is reported. -/
theorem declareScales_cases (decls : List ScaleDecl)
    (h : ScalesDone options m ds late done added p) :
    (∃ scales, ScalesDone options m ds late (done ++ decls) scales
        (decls.foldl
          (declareScale options m.units.length m.scales.length (scopeOf (m.units ++ late))) p)) ∨
      (∀ scales, ¬ ScalesFit options m late (done ++ decls) scales) ∧
        (decls.foldl
          (declareScale options m.units.length m.scales.length (scopeOf (m.units ++ late)))
          p).diagnostics.hasErrors = true := by
  induction decls generalizing done added p with
  | nil =>
    rw [append_nil]
    exact .inl ⟨added, h⟩
  | cons d decls ih =>
    rcases h.declareScale_cases d with ⟨scale, hnext⟩ | ⟨hnot, herr⟩
    · rw [append_cons]
      exact ih hnext
    · refine .inr ⟨fun scales hfit => ?_, hasErrors_declareScales decls herr⟩
      obtain ⟨scale, hscale⟩ := hfit.step
      exact hnot scale hscale

/-! ### All declarations -/

/-- **The entries are the meaning of the declarations**, which have no errors. -/
structure Sound (options : Options) (m : Model) (decls : Declarations) (late : List UnitEntry)
    (scales : List ScaleEntry) : Prop extends Fitting options m decls.units late where
  scalesFit : ScalesFit options m (kept options m late) decls.scales scales

/-- The model with the late entries that stay. -/
def extended (options : Options) (m : Model) (late : List UnitEntry) (scales : List ScaleEntry) :
    Model :=
  { m.beginLate with units := m.units ++ kept options m late, scales := m.scales ++ scales }

variable {decls : Declarations} {scales : List ScaleEntry}

/-- Which units were added last does not count for those that are added next. -/
theorem fitting_beginLate_iff :
    Fitting options m.beginLate us late ↔ Fitting options m us late := by
  constructor <;> exact fun ⟨⟨hdiffer, hadmits⟩, ⟨hlen, hmeaning, hwf⟩, haliases⟩ =>
    ⟨⟨hdiffer, fun d hd => ⟨(hadmits d hd).name, (hadmits d hd).tags⟩⟩, ⟨hlen, hmeaning, hwf⟩,
      haliases⟩

theorem elaborate_eq (hq : elaborateUnits options m ds decls.units = .ok q) :
    elaborate options m ds decls = .ok
      ({ m with
          units := q.units
          scales := (decls.scales.foldl (declareScale options m.lateUnits m.lateScales q.toScope)
            ⟨m.scales, scaleNames m, q.diagnostics⟩).scales },
        (decls.scales.foldl (declareScale options m.lateUnits m.lateScales q.toScope)
          ⟨m.scales, scaleNames m, q.diagnostics⟩).diagnostics) := by
  unfold elaborate
  rw [hq]
  rfl

/-- Scales over units that are held: they fit their declarations and are added, or an error is
reported. -/
theorem elaborate_cases (hq : elaborateUnits options m.beginLate ds decls.units = .ok q)
    (hholds : Holds options m ds late q) :
    (∃ scales, ScalesFit options m (kept options m late) decls.scales scales ∧
        elaborate options m.beginLate ds decls = .ok (extended options m late scales, ds)) ∨
      (∀ scales, ¬ ScalesFit options m (kept options m late) decls.scales scales) ∧
        ∃ m' ds', elaborate options m.beginLate ds decls = .ok (m', ds') ∧
          ds'.hasErrors = true := by
  obtain ⟨halike, hdiag⟩ := hholds
  rw [elaborate_eq hq, declareScale_congr halike, hdiag]
  rcases declareScales_cases decls.scales
      (scalesDone_start options m ds (kept options m late)) with ⟨scales, hdone⟩ | ⟨hnot, herr⟩
  · rw [nil_append] at hdone
    refine .inl ⟨scales, ⟨hdone.nodup, hdone.fits⟩, congrArg Except.ok (Prod.ext ?_ ?_)⟩
    · unfold extended
      rw [halike.units]
      exact congrArg (fun scales => { m.beginLate with
        units := m.units ++ kept options m late, scales }) hdone.scales
    · exact hdone.diagnostics
  · exact .inr ⟨hnot, _, _, rfl, herr⟩

/-- **Declarations that get a meaning without an error are sound.** -/
theorem elaborate_noErrors (h : elaborate options m.beginLate ds decls = .ok (m', ds'))
    (hok : ds'.hasErrors = false) :
    ∃ late scales, Sound options m decls late scales ∧
      m' = extended options m late scales ∧ ds' = ds := by
  obtain ⟨q, hq, -⟩ := bind_eq_ok_iff.mp h
  have hqok : q.diagnostics.hasErrors = false := by
    refine Bool.eq_false_iff.mpr fun herr => ?_
    rw [elaborate_eq hq] at h
    cases h
    rw [hasErrors_declareScales decls.scales herr] at hok
    cases hok
  obtain ⟨late, hfitting, hholds⟩ := elaborateUnits_noErrors rfl hq hqok
  rcases elaborate_cases (m := m) hq hholds with ⟨scales, hfit, heq⟩ | ⟨-, m'', ds'', heq, herr⟩
  · rw [heq] at h
    cases h
    exact ⟨late, scales, ⟨fitting_beginLate_iff.mp hfitting, hfit⟩, rfl, rfl⟩
  · rw [heq] at h
    cases h
    rw [hok] at herr
    cases herr

theorem ScalesFit.unique {decls : List ScaleDecl} (h : ScalesFit options m late decls scales)
    (h' : ScalesFit options m late decls scales') : scales = scales' := by
  refine right_unique_forall₂' (fun d s s' hs hs' => ?_) h.fits h'.fits
  exact Except.ok.inj (hs.meaning.symm.trans hs'.meaning)

/-- **Sound declarations get their meaning**, without an error. -/
theorem Sound.elaborate (h : Sound options m decls late scales) (ds : Diagnostics) :
    elaborate options m.beginLate ds decls = .ok (extended options m late scales, ds) := by
  obtain ⟨q, hq, hholds⟩ := (fitting_beginLate_iff.mpr h.toFitting).exists_elaborateUnits rfl ds
  rcases elaborate_cases hq hholds with ⟨scales', hfit, heq⟩ | ⟨hnot, -⟩
  · rw [heq, hfit.unique h.scalesFit]
  · exact absurd h.scalesFit (hnot scales)

end Elaborate

end Quantity
