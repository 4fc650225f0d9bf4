import Quantity.Proofs.Model.Exposed

/-!
# Names and tags of late entries

While units are declared, an accepted one owns its name and its tags: no later declaration takes
them away. A tag that an earlier unit has is granted only to a unit that reuses the name of the
earlier one. `extend_distinct` says what follows for the entries with a meaning that a text adds
to a model: their names are distinct, scales included, and so are the tags of the units.
-/

namespace Quantity

open List

namespace Elaborate

variable {options : Options} {m : Model} {ds : Diagnostics} {us : List UnitDecl}
  {p q r s : Progress} {todo todo' : Todo} {retired : List Nat} {d : UnitDecl}

/-! ### Late units that wait -/

/-- **What units that wait own**: their names and tags lead to them, and a tag that an earlier unit
has is that of the unit whose name they reuse. -/
structure Owned (m : Model) (p : Progress) (pending : List (Nat × UnitDecl)) : Prop where
  /-- Tags lead where they did in the model, or to late units. -/
  known : ∀ tag, p.tags.get? tag = m.findTag? tag ∨
    ∃ i, p.tags.get? tag = some i ∧ m.units.length ≤ i
  name : ∀ i d, (i, d) ∈ pending → p.names.get? d.name = some i
  tag : ∀ i d, (i, d) ∈ pending → ∀ tag ∈ d.tags, p.tags.get? tag = some i ∧
    ∀ k, m.findTag? tag = some k → m.findUnit? d.name = some k

theorem owned_start : Owned m (start m ds) [] where
  known tag := .inl (get?_start_tags m ds tag)
  name _ _ h := by cases h
  tag _ _ h := by cases h

theorem Owned.congr (h : Owned m p pending) (hn : q.names = p.names) (ht : q.tags = p.tags) :
    Owned m q pending where
  known tag := ht ▸ h.known tag
  name i d hmem := hn ▸ h.name i d hmem
  tag i d hmem tag htag := ht ▸ h.tag i d hmem tag htag

/-- Late units keep their names and tags while another unit gets its name. -/
theorem Owned.enter (h : Owned m p pending) (hlen : m.units.length ≤ p.units.length)
    (hlate : ∀ i d', (i, d') ∈ pending → m.units.length ≤ i)
    (hname : GetsName options m.units.length p d)
    (hn : q.names = p.names.insert d.name p.units.length)
    (hgrants : Grants p.tags p.units.length (p.names.get? d.name) q.tags) : Owned m q pending where
  known tag := by
    rcases hgrants tag with heq | ⟨heq, -⟩
    · rw [heq]
      exact h.known tag
    · exact .inr ⟨_, heq, hlen⟩
  name i d' hmem := by
    have hi := h.name i d' hmem
    rw [hn, Table.get?_insert, if_neg]
    · exact hi
    · intro heq
      exact absurd (hname i (heq ▸ hi)).1 (Nat.not_lt.mpr (hlate i d' hmem))
  tag i d' hmem tag htag := by
    obtain ⟨hi, hk⟩ := h.tag i d' hmem tag htag
    refine ⟨?_, hk⟩
    rcases hgrants tag with heq | ⟨heq, howner⟩
    · exact heq.trans hi
    · rcases howner i hi with rfl | hprevious
      · exact heq
      · exact absurd (hname i hprevious).1 (Nat.not_lt.mpr (hlate i d' hmem))

/-- A tag that an accepted unit gets is in the model that of the unit of its name: late units own
their tags for good. -/
theorem Owned.findUnit?_of_free {tag : String} (h : Owned m p pending)
    (ht : Tables options m p todo) (htags : TagsInRange p)
    (hname : GetsName options m.units.length p d)
    (hfree : ∀ i, p.tags.get? tag = some i → i = p.units.length ∨ p.names.get? d.name = some i)
    (hk : m.findTag? tag = some k) : m.findUnit? d.name = some k := by
  have hprevious (i : Nat) (hi : p.tags.get? tag = some i) : p.names.get? d.name = some i :=
    (hfree i hi).resolve_left fun heq => Nat.lt_irrefl _ (heq ▸ htags tag i hi)
  rcases h.known tag with heq | ⟨j, hj, hle⟩
  · have hleads := hprevious k (heq.trans hk)
    exact ht.claims.early _ k hleads (hname k hleads).1
  · exact absurd (hname j (hprevious j hj)).1 (Nat.not_lt.mpr hle)

theorem Owned.concat (h : Owned m p todo.pending) (hd : Declared options m us p todo)
    (ht : Tables options m p todo) (htags : TagsInRange p)
    (hdeclares : Declares options m.units.length p todo d q todo') : Owned m q todo'.pending := by
  have hlen : m.units.length ≤ p.units.length := by
    rw [hd.length_units]
    exact Nat.le_add_right _ _
  have hlate (i : Nat) (d' : UnitDecl) (hmem : (i, d') ∈ todo.pending) : m.units.length ≤ i := by
    obtain ⟨-, k, rfl, -⟩ := hd.pending i d' hmem
    exact Nat.le_add_right _ _
  cases hdeclares with
  | refused => exact h.congr rfl rfl
  | clashes _ hname _ _ _ hgrants => exact h.enter hlen hlate hname rfl hgrants
  | @accepted owners hname howners hfree =>
    have hgets {tag : String} (htag : tag ∈ d.tags) : owners.get? tag = some p.units.length :=
      (howners tag).trans (if_pos htag)
    have henter : Owned m (p.enter options d owners .pending) todo.pending := by
      refine h.enter hlen hlate hname rfl fun tag => ?_
      by_cases htag : tag ∈ d.tags
      · exact .inr ⟨hgets htag, hfree tag htag⟩
      · exact .inl ((howners tag).trans (if_neg htag))
    refine ⟨henter.known, fun i d' hmem => ?_, fun i d' hmem tag htag => ?_⟩
    · rcases mem_append.mp hmem with hmem | hmem
      · exact henter.name i d' hmem
      · cases mem_singleton.mp hmem
        exact (Table.get?_insert ..).trans (if_pos rfl)
    · rcases mem_append.mp hmem with hmem | hmem
      · exact henter.tag i d' hmem tag htag
      · cases mem_singleton.mp hmem
        exact ⟨hgets htag, fun k => h.findUnit?_of_free ht htags hname (hfree tag htag)⟩

/-- **Declared units own their names and tags.** -/
theorem owned_declareUnits (us : List UnitDecl) (hd : Declared options m done p todo)
    (ht : Tables options m p todo) (htags : TagsInRange p) (h : Owned m p todo.pending) :
    Owned m (declareUnits options m.units.length p todo us).1
      (declareUnits options m.units.length p todo us).2.pending := by
  induction us generalizing done p todo with
  | nil => exact h
  | cons d us ih =>
    have hdeclares := declares_declareUnit options m.units.length todo d hd.length_states
    exact ih (hd.concat hdeclares) (ht.concat hd hdeclares) (htags.concat hdeclares)
      (h.concat hd ht htags hdeclares)

/-! ### Late units -/

section Stages

variable (h : Stages options m us q todo s retired r)

include h

/-- A late unit with a meaning is one that was accepted, and it was not removed. -/
theorem Stages.accepted (hk : m.units.length ≤ k) (hu : r.units[k]? = some u)
    (hvalid : u.valid = true) :
    ∃ i d, (i, d) ∈ todo.pending ∧ i ∉ retired ∧ renumber retired i = k ∧ u.name = d.name ∧
      u.tags = d.tags := by
  obtain ⟨i, v, hstays, rfl, hv, ⟨rfl, -⟩ | ⟨rfl, -⟩⟩ := h.left_cases hu
  · obtain ⟨p, r', deferred, hd, hstuck, rfl⟩ := h.passes
    obtain ⟨j, rfl⟩ := Nat.exists_eq_add_of_le (h.le_renumber.mp hk)
    have hlt := lt_of_getElem? hv
    rw [(hstuck.isFixedPoint hd).length] at hlt
    have hj := getElem?_eq_getElem (Nat.lt_of_add_lt_add_left hlt)
    obtain ⟨redeclared, ⟨hmem, ⟨e, -, -, hu'⟩ | ⟨-, -, hu'⟩⟩ | ⟨-, -, hu'⟩⟩ := hstuck.late hd hj
    · rw [hu'] at hv
      cases hv
      exact ⟨_, _, hmem, hstays, rfl, rfl, rfl⟩
    all_goals
      rw [hu'] at hv
      cases hv
      cases hvalid
  · cases hvalid

theorem Stages.get?_of_valid (hown : ∀ i d, (i, d) ∈ todo.pending → q.names.get? d.name = some i)
    (hk : m.units.length ≤ k) (hu : r.units[k]? = some u) (hvalid : u.valid = true) :
    r.names.get? u.name = some k := by
  obtain ⟨i, d, hmem, hstays, rfl, hname, -⟩ := h.accepted hk hu hvalid
  rcases h.leads (hname ▸ hown i d hmem) with ⟨j, halias, hretires, -⟩ | ⟨-, hleads, -⟩
  · exact absurd ((h.compared.mem i).mpr ⟨j, halias, hretires⟩) hstays
  · exact hleads

end Stages

/-- **Late units with a meaning own their names and tags.** -/
structure Distinguished (m : Model) (r : Progress) (tags : Table) : Prop where
  name : ∀ (k : Nat) (u : UnitEntry), m.units.length ≤ k → r.units[k]? = some u →
    u.valid = true → r.names.get? u.name = some k
  tag : ∀ (k : Nat) (u : UnitEntry), m.units.length ≤ k → r.units[k]? = some u →
    u.valid = true → ∀ tag ∈ u.tags, tags.get? tag = some k ∧
      ∀ i, m.findTag? tag = some i → m.findUnit? u.name = some i

theorem exists_distinguished (hlate : m.lateUnits = m.units.length)
    (h : elaborateUnits options m ds us = .ok r) : ∃ tags, Distinguished m r tags := by
  obtain ⟨r', deferred, retired, hstuck, hstages⟩ := exists_passes hlate h
  have hown := owned_declareUnits us (declared_start options m ds) tables_start
    tagsInRange_start owned_start
  refine ⟨(declareUnits options m.units.length (start m ds) {} us).1.tags.map (renumber retired),
    fun k u hk hu hvalid => ?_, fun k u hk hu hvalid tag htag => ?_⟩
  · refine hstages.get?_of_valid (fun i d hmem => ?_) hk hu hvalid
    rw [names_giveUp, hstuck.run.advances.names]
    exact hown.name i d hmem
  · obtain ⟨i, d, hmem, -, rfl, hname, htags⟩ := hstages.accepted hk hu hvalid
    obtain ⟨hi, hearly⟩ := hown.tag i d hmem tag (htags ▸ htag)
    rw [Table.get?_map, hi, hname]
    exact ⟨rfl, hearly⟩

/-! ### Late scales -/

/-- **What scales own that were declared so far**: their names lead to late scales, and those with
a meaning share them with no other such scale and with no late unit. -/
structure ScalesOwned (lateUnits lateScales : Nat) (scope : Scope) (x : ScaleProgress)
    (added : List ScaleEntry) : Prop where
  length : lateScales ≤ x.scales.length
  claimed : ∀ s ∈ added, ∃ i, x.names.get? s.name = some i ∧ lateScales ≤ i
  nodup : ((added.filter (·.valid)).map (·.name)).Nodup
  apart : ∀ s ∈ added, s.valid = true → ∀ i, scope.names.get? s.name = some i → i < lateUnits

/-- The names of late scales stay claimed, and that of the declaration is claimed. -/
theorem get?_declareScale (options : Options) (lateUnits : Nat) (scope : Scope) (d : ScaleDecl)
    (hx : lateScales ≤ x.scales.length)
    (hname : name = d.name ∨ ∃ i, x.names.get? name = some i ∧ lateScales ≤ i) :
    ∃ i, (declareScale options lateUnits lateScales scope x d).names.get? name = some i ∧
      lateScales ≤ i := by
  unfold declareScale
  dsimp only
  split_ifs with hclaimed
  · rcases hname with rfl | hname
    · simpa [Option.any_eq_true] using hclaimed
    · exact hname
  · rw [Table.get?_insert]
    split_ifs with heq
    · exact ⟨_, rfl, hx⟩
    · exact hname.resolve_left (Ne.symm heq)

/-- A name that is good for a scale is that of no late unit and of no late scale. -/
theorem lt_of_scaleNameError? {d : ScaleDecl}
    (h : scaleNameError? options lateUnits lateScales scope names d = none) :
    (∀ i, scope.names.get? d.name = some i → i < lateUnits) ∧
      ∀ i, names.get? d.name = some i → i < lateScales := by
  unfold scaleNameError? at h
  split at h
  · cases h
  · rename_i hunit
    refine ⟨fun i hi => ?_, fun i hi => ?_⟩
    · rw [hi] at hunit
      simpa using hunit
    · rw [hi] at h
      dsimp only at h
      split at h
      · cases h
      · rename_i hlate
        exact Nat.lt_of_not_le hlate

section Scales

variable {lateUnits lateScales : Nat} {scope : Scope} {x : ScaleProgress}
  {added : List ScaleEntry} {t : ScaleEntry} {d : ScaleDecl}

/-- A scale with a meaning is added only under a name that is free. -/
theorem ScalesOwned.concat (h : ScalesOwned lateUnits lateScales scope x added)
    (hscales : (declareScale options lateUnits lateScales scope x d).scales = x.scales ++ [t])
    (hname : t.name = d.name)
    (hfree : t.valid = true →
      scaleNameError? options lateUnits lateScales scope x.names d = none) :
    ScalesOwned lateUnits lateScales scope
      (declareScale options lateUnits lateScales scope x d) (added ++ [t]) where
  length := by
    rw [hscales, length_append]
    exact Nat.le_add_right_of_le h.length
  claimed t' ht' := by
    refine get?_declareScale options lateUnits scope d h.length ?_
    rcases mem_append.mp ht' with ht' | ht'
    · exact .inr (h.claimed t' ht')
    · cases mem_singleton.mp ht'
      exact .inl hname
  nodup := by
    rw [filter_append, map_append, nodup_append]
    refine ⟨h.nodup, ?_, fun name hmem name' hmem' => ?_⟩
    · by_cases hvalid : t.valid <;> simp [hvalid]
    · -- a late scale of the name would have claimed it
      obtain ⟨t', ht', rfl⟩ := mem_map.mp hmem
      obtain ⟨t'', ht'', rfl⟩ := mem_map.mp hmem'
      obtain ⟨hlast, hvalid⟩ := mem_filter.mp ht''
      cases mem_singleton.mp hlast
      obtain ⟨i, hi, hle⟩ := h.claimed t' (mem_of_mem_filter ht')
      intro heq
      rw [heq, hname] at hi
      exact absurd ((lt_of_scaleNameError? (hfree hvalid)).2 i hi) (Nat.not_lt.mpr hle)
  apart t' ht' hvalid := by
    rcases mem_append.mp ht' with ht' | ht'
    · exact h.apart t' ht' hvalid
    · cases mem_singleton.mp ht'
      rw [hname]
      exact (lt_of_scaleNameError? (hfree hvalid)).1

/-- **Declared scales own their names.** -/
theorem scalesOwned_declareScales (options : Options) (decls : List ScaleDecl)
    (h : ScalesOwned lateUnits lateScales scope x added) :
    ∃ more,
      (decls.foldl (declareScale options lateUnits lateScales scope) x).scales =
        x.scales ++ more ∧
      ScalesOwned lateUnits lateScales scope
        (decls.foldl (declareScale options lateUnits lateScales scope) x) (added ++ more) := by
  induction decls generalizing x added with
  | nil => exact ⟨[], (append_nil _).symm, (append_nil added).symm ▸ h⟩
  | cons d decls ih =>
    obtain ⟨t, hscales, hname, hfree⟩ :
        ∃ t, (declareScale options lateUnits lateScales scope x d).scales = x.scales ++ [t] ∧
          t.name = d.name ∧ (t.valid = true →
            scaleNameError? options lateUnits lateScales scope x.names d = none) := by
      rcases declareScale_cases options lateUnits lateScales scope x d with
        ⟨t, hfree, ht, hscales, -⟩ | ⟨why, -, hscales, -⟩
      · have hscale : IsScaleOf options scope d t := .inr ht
        exact ⟨t, hscales, hscale.unit_eq.2.2.1, fun _ => hfree⟩
      · exact ⟨_, hscales, rfl, nofun⟩
    obtain ⟨more, hmore, howned⟩ := ih (h.concat hscales hname hfree)
    refine ⟨t :: more, ?_, ?_⟩
    · rw [foldl_cons, hmore, hscales, List.append_assoc, singleton_append]
    · rwa [List.append_assoc] at howned

end Scales

end Elaborate

/-! ### All entries -/

namespace Model

open Elaborate

/-- The names of the late entries that have a meaning. -/
def lateNames (m : Model) : List String :=
  ((m.units.drop m.lateUnits).filter (·.valid)).map (·.name) ++
    ((m.scales.drop m.lateScales).filter (·.valid)).map (·.name)

theorem nodup_of_get? {names : Table} {units : List UnitEntry}
    (h : ∀ (k : Nat) (u : UnitEntry), n ≤ k → units[k]? = some u → u.valid = true →
      names.get? u.name = some k) :
    (((units.drop n).filter (·.valid)).map (·.name)).Nodup := by
  rw [List.Nodup, pairwise_map, pairwise_filter, pairwise_iff_getElem]
  intro i j hi hj hij hvi hvj heq
  have hget {k : Nat} (hk : k < (units.drop n).length) (hvalid : (units.drop n)[k].valid = true) :
      names.get? (units.drop n)[k].name = some (n + k) := by
    refine h (n + k) _ (Nat.le_add_right n k) ?_ hvalid
    rw [← getElem?_drop, getElem?_eq_getElem hk]
  have := hget hi hvi
  rw [heq, hget hj hvj] at this
  have := Option.some.inj this
  omega

/-- The names of the entries with a meaning depend on no more than is compared. -/
theorem map_filter_congr {α : Type} (bare : α → α) {valid : α → Bool} {name : α → String}
    (hvalid : ∀ x, valid (bare x) = valid x) (hname : ∀ x, name (bare x) = name x) {xs ys : List α}
    (h : xs.map bare = ys.map bare) : (xs.filter valid).map name = (ys.filter valid).map name := by
  have hbare (zs : List α) : (zs.filter valid).map name = ((zs.map bare).filter valid).map name := by
    have hvalid' : valid ∘ bare = valid := funext hvalid
    have hname' : name ∘ bare = name := funext hname
    rw [filter_map, map_map, hvalid', hname']
  rw [hbare xs, h, ← hbare ys]

theorem lateNames_congr {c e : Model} (hunits : c.units.map (·.bare) = e.units.map (·.bare))
    (hscales : c.scales.map (·.bare) = e.scales.map (·.bare)) (hlate : c.lateUnits = e.lateUnits)
    (hlate' : c.lateScales = e.lateScales) : c.lateNames = e.lateNames := by
  unfold lateNames
  rw [hlate, hlate']
  refine congrArg₂ (· ++ ·) ?_ ?_
  · refine map_filter_congr UnitEntry.bare (fun _ => rfl) (fun _ => rfl) ?_
    rw [map_drop, hunits, map_drop]
  · refine map_filter_congr ScaleEntry.bare (fun _ => rfl) (fun _ => rfl) ?_
    rw [map_drop, hscales, map_drop]

/-- Before families are numbered, late entries with a meaning have distinct names: a scale cannot
have the name of a late unit. -/
theorem nodup_lateNames (hlate : m.lateUnits = m.units.length)
    (hlate' : m.lateScales = m.scales.length) (he : elaborate options m ds decls = .ok (e, ds'))
    (hp : elaborateUnits options m ds decls.units = .ok p) (h : Distinguished m p tags) :
    e.lateNames.Nodup := by
  rw [elaborate_eq hp] at he
  obtain ⟨rfl, -⟩ := he
  have hstart : ScalesOwned m.lateUnits m.lateScales p.toScope
      ⟨m.scales, scaleNames m, p.diagnostics⟩ [] :=
    ⟨hlate'.le, fun _ hs => absurd hs not_mem_nil, nodup_nil,
      fun _ hs => absurd hs not_mem_nil⟩
  obtain ⟨added, hadded, howned⟩ := scalesOwned_declareScales options decls.scales hstart
  unfold lateNames
  dsimp only
  rw [hadded, hlate', drop_left, nodup_append]
  refine ⟨nodup_of_get? fun k u hk hu hvalid => h.name k u (hlate ▸ hk) hu hvalid,
    howned.nodup, ?_⟩
  intro name hunit name' hscale heq
  obtain ⟨u, hu, rfl⟩ := mem_map.mp hunit
  obtain ⟨t, ht, rfl⟩ := mem_map.mp hscale
  obtain ⟨hu, hvalid⟩ := mem_filter.mp hu
  obtain ⟨ht, htvalid⟩ := mem_filter.mp ht
  obtain ⟨k, hk⟩ := mem_iff_getElem?.mp hu
  rw [getElem?_drop] at hk
  have hleads := h.name _ u (hlate ▸ Nat.le_add_right _ k) hk hvalid
  rw [heq] at hleads
  have := howned.apart t ht htvalid _ hleads
  omega

theorem exists_findTag? {m : Model} {i : Nat} (hu : m.units[i]? = some u) (htag : tag ∈ u.tags) :
    ∃ k, m.findTag? tag = some k := by
  refine Option.isSome_iff_exists.mp (getLast?_isSome.mpr ?_)
  exact ne_nil_of_mem (mem_places.mpr ⟨u, hu, contains_iff_mem.mpr htag⟩)

theorem exists_unit_of_map_bare {us vs : List UnitEntry} (h : us.map (·.bare) = vs.map (·.bare))
    {i : Nat} (hu : us[i]? = some u) :
    ∃ v, vs[i]? = some v ∧ v.name = u.name ∧ v.tags = u.tags ∧ v.valid = u.valid := by
  obtain ⟨v, hv, heq⟩ := exists_getElem?_of_map_eq h hu
  obtain ⟨hname, -, hvalid, -⟩ := UnitEntry.eq_of_bare_eq heq
  have htags : v.bare.tags = u.bare.tags := by rw [heq]
  exact ⟨v, hv, hname, htags, hvalid⟩

/-- **Late entries with a meaning have distinct names, and late units distinct tags**, whatever the
model, the text and the policy. A late unit shares a tag with an earlier unit only if it reuses the
name of the last one that has the tag. -/
theorem extend_distinct (m : Model) (text : String) (options : Options) :
    ((∃ c, m.extend text options = .ok c) ↔ m.HasRoomFor text options) ∧
      ∀ c, m.extend text options = .ok c → c.model.lateUnits = m.units.length ∧
      c.model.lateScales = m.scales.length ∧ c.model.lateNames.Nodup ∧
      (∀ (i j : Nat) (u v : UnitEntry), m.units.length ≤ i → m.units.length ≤ j → i ≠ j →
        c.model.units[i]? = some u → c.model.units[j]? = some v → u.valid = true →
        v.valid = true → u.tags.Disjoint v.tags) ∧
      ∀ (i j : Nat) (u v : UnitEntry) (tag : String), m.units.length ≤ i → j < m.units.length →
        c.model.units[i]? = some u → c.model.units[j]? = some v → u.valid = true →
        tag ∈ u.tags → tag ∈ v.tags →
        ∃ k w, m.findTag? tag = some k ∧ m.findUnit? u.name = some k ∧ m.units[k]? = some w ∧
          w.name = u.name := by
  refine ⟨m.exists_extend_iff text options, fun c hc => ?_⟩
  obtain ⟨e, ds, -, -, he, -, -, hmodel⟩ := exists_extended hc
  obtain ⟨hlate, hlate'⟩ := late_extend hc
  obtain ⟨p, q, todo, s, retired, added, hp, hstages, hunits, -, -, -⟩ :=
    exists_stages_of_elaborate rfl he
  obtain ⟨tags, hdistinct⟩ := exists_distinguished rfl hp
  have hbare := e.map_bare_units options.firstFamily
  have hbare' := e.map_bare_scales options.firstFamily
  rw [← hmodel] at hbare hbare'
  have hbefore : c.model.units.map (·.bare) = p.units.map (·.bare) := hunits ▸ hbare
  have hlast : e.lateUnits = m.units.length ∧ e.lateScales = m.scales.length := by
    rw [elaborate_eq hp, Except.ok.injEq, Prod.mk.injEq] at he
    rw [← he.1]
    exact ⟨rfl, rfl⟩
  refine ⟨hlate, hlate', ?_, ?_, ?_⟩
  · rw [lateNames_congr hbare hbare' (hlate.trans hlast.1.symm) (hlate'.trans hlast.2.symm)]
    exact nodup_lateNames rfl rfl he hp hdistinct
  · intro i j u v hi hj hij hu hv huvalid hvvalid tag hut hvt
    obtain ⟨u', hu', -, htags, hvalid⟩ := exists_unit_of_map_bare hbefore hu
    obtain ⟨v', hv', -, htags', hvalid'⟩ := exists_unit_of_map_bare hbefore hv
    obtain ⟨hti, -⟩ := hdistinct.tag i u' hi hu' (hvalid.trans huvalid) tag (htags ▸ hut)
    obtain ⟨htj, -⟩ := hdistinct.tag j v' hj hv' (hvalid'.trans hvvalid) tag (htags' ▸ hvt)
    exact hij (Option.some.inj (hti.symm.trans htj))
  · intro i j u v tag hi hj hu hv huvalid hut hvt
    obtain ⟨u', hu', hname, htags, hvalid⟩ := exists_unit_of_map_bare hbefore hu
    obtain ⟨v', hv', -, htags', -⟩ := exists_unit_of_map_bare hbefore hv
    obtain ⟨k, hk⟩ := exists_findTag? ((hstages.early hj).symm.trans hv') (htags' ▸ hvt)
    obtain ⟨-, hreuses⟩ := hdistinct.tag i u' hi hu' (hvalid.trans huvalid) tag (htags ▸ hut)
    have hfind := hreuses k hk
    rw [hname] at hfind
    obtain ⟨w, hw, hwname⟩ := exists_of_findUnit? hfind
    exact ⟨k, w, hk, hfind, hw, hwname⟩

end Model

end Quantity
