import Quantity.Proofs.Model.Meaning
import Quantity.Proofs.Source.Conversions

/-!
# Conversions between scales

The file of a late scale converts it from the other scales of its family. A view keeps their bare
names, and only late scales are found by name. So an earlier scale of the family whose name has been
used again is not left out, but stands for the late scale of that name once more: a scale may be
converted from itself, or twice from the same scale. `late_scaleConversions_once_iff` says when each
conversion is written once.
-/

namespace Quantity

open List

/-- Values that stand for themselves: what passes is there once exactly if no two places lead to
it. -/
theorem nodup_filter_filterMap_iff {xs : List α} (hxs : xs.Nodup) :
    ((xs.filterMap f).filter p).Nodup ↔
      ∀ x ∈ xs, ∀ y ∈ xs, ∀ b, f x = some b → f y = some b → p b = true → x = y := by
  rw [List.Nodup, pairwise_filter, pairwise_filterMap]
  constructor
  · intro hpairwise x hx y hy b hfx hfy hp
    by_contra hne
    have : Std.Symm fun x y : α =>
        ∀ b, f x = some b → ∀ b', f y = some b' → p b = true → p b' = true → b ≠ b' :=
      ⟨fun _ _ h b hb b' hb' hp hp' => (h b' hb' b hb hp' hp).symm⟩
    exact hpairwise.forall hx hy hne b hfx b hfy hp hp rfl
  · intro hall
    refine hxs.imp_of_mem fun {x y} hx hy hne b hb b' hb' hp _ heq => ?_
    exact hne (hall x hx y hy b hb (heq ▸ hb') hp)

namespace Source

variable {v : View}

/-- **Each conversion is written once**: none is from a type into itself, and no two have the same
source and target. -/
def ConvertOnce (conversions : List Conversion) : Prop :=
  (∀ x ∈ conversions, x.source ≠ x.target) ∧
    (conversions.map fun x => (x.source, x.target)).Nodup

instance (conversions : List Conversion) : Decidable (ConvertOnce conversions) :=
  inferInstanceAs (Decidable (_ ∧ _))

/-- Whether a name leads to a shown scale with numbers of the kind. -/
def isConvertible (v : View) (kind : NumericKind) (name : String) : Bool :=
  ((v.scale? name).bind fun other => other.unit.bind v.unit?).map (·.unit.kind) = some kind

theorem name_of_scale? (h : v.scale? name = some other) : other ∈ v.scales ∧ other.name = name := by
  have hname := find?_some h
  exact ⟨mem_reverse.mp (mem_of_find?_eq_some h), of_decide_eq_true hname⟩

theorem map_scaleConversions (v : View) (s : ScaleView) (unit : UnitView) (unitType : String) :
    (scaleConversions v s unit unitType).map (fun x => (x.source, x.target)) =
      (s.relatives.filter (isConvertible v unit.kind)).map fun name =>
        (identifier name, identifier s.name) := by
  rw [scaleConversions, map_filterMap, ← filterMap_eq_map, filterMap_filter]
  refine filterMap_congr fun name _ => ?_
  unfold scaleConversion? isConvertible
  cases hother : v.scale? name with
  | none => rfl
  | some other =>
    obtain rfl := (name_of_scale? hother).2
    cases hfound : other.unit.bind v.unit? with
    | none => simp [hfound]
    | some found => by_cases hkind : found.unit.kind = unit.kind <;> simp [hfound]

theorem identifier_inj (ha : '#' ∉ a.toList) (hb : '#' ∉ b.toList)
    (h : identifier a = identifier b) : a = b := by
  have hraw (s : String) : '#' ∈ ("r#" ++ s).toList := by simp
  unfold identifier at h
  split_ifs at h with hra hrb hrb
  · simpa using h
  · exact absurd (h ▸ hraw a) hb
  · exact absurd (h ▸ hraw b) ha
  · exact h

theorem eq_of_scaleSource (h : scaleSource v e = .ok source) :
    ∃ found family, e.unit.bind v.unit? = some found ∧ e.family = some family ∧
      source = ⟨e, found.unit, foundType found, family,
        scaleConversions v e found.unit (foundType found)⟩ := by
  unfold scaleSource at h
  split at h
  · rename_i name hunit
    split at h
    · rename_i found hfound
      split at h
      · rename_i family hfamily
        cases h
        exact ⟨found, family, by rw [hunit, Option.bind_some, hfound], hfamily, rfl⟩
      · cases h
    · cases h
  · cases h

/-- The scales that a scale is converted from. -/
def convertedFrom (v : View) (source : ScaleSource) : List String :=
  source.scale.relatives.filter (isConvertible v source.unit.kind)

section Sources

variable {e : ScaleView} {source : ScaleSource}

theorem map_conversions (h : scaleSource v e = .ok source) :
    source.conversions.map (fun x => (x.source, x.target)) =
      (convertedFrom v source).map fun name => (identifier name, identifier source.scale.name) := by
  obtain ⟨found, family, -, -, rfl⟩ := eq_of_scaleSource h
  exact map_scaleConversions v e found.unit (foundType found)

theorem exists_of_mem_convertedFrom (h : name ∈ convertedFrom v source) :
    ∃ other ∈ v.scales, other.name = name := by
  have hfound := (mem_filter.mp h).2
  unfold isConvertible at hfound
  cases hother : v.scale? name with
  | none =>
    rw [hother] at hfound
    cases hfound
  | some other => exact ⟨other, name_of_scale? hother⟩

variable (hwords : ∀ s ∈ v.scales, '#' ∉ s.name.toList)
include hwords

theorem nodup_map_conversions_iff (h : scaleSource v e = .ok source) :
    (source.conversions.map fun x => (x.source, x.target)).Nodup ↔
      (convertedFrom v source).Nodup := by
  rw [map_conversions h]
  refine ⟨List.Nodup.of_map _, fun hnodup => hnodup.map_on fun a ha b hb heq => ?_⟩
  obtain ⟨s, hs, rfl⟩ := exists_of_mem_convertedFrom ha
  obtain ⟨t, ht, rfl⟩ := exists_of_mem_convertedFrom hb
  exact identifier_inj (hwords s hs) (hwords t ht) (congrArg Prod.fst heq)

theorem forall_source_ne_target_iff (h : scaleSource v e = .ok source) (he : e ∈ v.scales) :
    (∀ x ∈ source.conversions, x.source ≠ x.target) ↔
      source.scale.name ∉ convertedFrom v source := by
  have hscale : source.scale ∈ v.scales := (scale_of_scaleSource h).symm ▸ he
  have hpairs (p : String × String) :
      (∃ x ∈ source.conversions, (x.source, x.target) = p) ↔ ∃ name ∈ convertedFrom v source,
        (identifier name, identifier source.scale.name) = p := by
    rw [← mem_map, map_conversions h, mem_map]
  constructor
  · intro hne hmem
    obtain ⟨x, hx, heq⟩ := (hpairs _).mpr ⟨_, hmem, rfl⟩
    obtain ⟨hsource, htarget⟩ := Prod.ext_iff.mp heq
    exact hne x hx (hsource.trans htarget.symm)
  · intro hnot x hx heq
    obtain ⟨name, hname, hpair⟩ := (hpairs _).mp ⟨x, hx, rfl⟩
    obtain ⟨hsource, htarget⟩ := Prod.ext_iff.mp hpair
    obtain ⟨s, hs, rfl⟩ := exists_of_mem_convertedFrom hname
    have hsame : identifier s.name = identifier source.scale.name :=
      hsource.trans (heq.trans htarget.symm)
    rw [identifier_inj (hwords s hs) (hwords _ hscale) hsame] at hname
    exact hnot hname

/-- **When the conversions of several files are written once**: if scales have names of their own,
this depends on each file alone. -/
theorem convertOnce_flatMap_iff {sources : List ScaleSource}
    (hsources : ∀ s ∈ sources, s.scale ∈ v.scales ∧ scaleSource v s.scale = .ok s)
    (hnames : (sources.map (·.scale.name)).Nodup) :
    ConvertOnce (sources.flatMap (·.conversions)) ↔
      ∀ s ∈ sources, (s.scale.name :: convertedFrom v s).Nodup := by
  have hapart : sources.Pairwise (Function.onFun List.Disjoint fun s =>
      s.conversions.map fun x => (x.source, x.target)) := by
    refine (pairwise_map.mp hnames).imp_of_mem fun {s t} hs ht hne p hp hp' => ?_
    dsimp only at hp hp'
    rw [map_conversions (hsources s hs).2] at hp
    rw [map_conversions (hsources t ht).2] at hp'
    obtain ⟨_, -, rfl⟩ := mem_map.mp hp
    obtain ⟨_, -, heq⟩ := mem_map.mp hp'
    refine hne (identifier_inj ?_ ?_ (congrArg Prod.snd heq).symm)
    · exact hwords _ (hsources s hs).1
    · exact hwords _ (hsources t ht).1
  unfold ConvertOnce
  rw [map_flatMap, nodup_flatMap, and_iff_left hapart]
  simp only [mem_flatMap, nodup_cons]
  constructor
  · rintro ⟨hne, hnodup⟩ s hs
    refine ⟨(forall_source_ne_target_iff hwords (hsources s hs).2 (hsources s hs).1).mp ?_, ?_⟩
    · exact fun x hx => hne x ⟨s, hs, hx⟩
    · exact (nodup_map_conversions_iff hwords (hsources s hs).2).mp (hnodup s hs)
  · intro hall
    refine ⟨?_, fun s hs => ?_⟩
    · rintro x ⟨s, hs, hx⟩
      have hself := (hall s hs).1
      exact (forall_source_ne_target_iff hwords (hsources s hs).2 (hsources s hs).1).mpr hself x hx
    · exact (nodup_map_conversions_iff hwords (hsources s hs).2).mpr (hall s hs).2

end Sources

end Source

namespace Model

open Source

variable {options : Options} {m c : Model} {i : Nat} {e : ScaleEntry}

/-! ### Late scales in a view -/

theorem chosen_le (xs : List α) (n : Nat) : chosen xs (fun i => decide (n ≤ i)) = xs.drop n := by
  induction xs using List.reverseRecOn with
  | nil => simp [chosen]
  | append_singleton xs x ih =>
    have hlast : chosen (xs ++ [x]) (fun i => decide (n ≤ i)) =
        chosen xs (fun i => decide (n ≤ i)) ++ if n ≤ xs.length then [x] else [] := by
      unfold chosen
      rw [zipIdx_append]
      split_ifs with hn <;> simp [hn]
    rw [hlast, ih, drop_append]
    split_ifs with hn
    · rw [Nat.sub_eq_zero_of_le hn, drop_zero]
    · have hnil : [x].drop (n - xs.length) = [] := by
        refine drop_eq_nil_of_le ?_
        rw [length_singleton]
        omega
      rw [hnil]

theorem scales_lateView (c : Model) :
    c.lateView.scales = (c.scales.drop c.lateScales).map c.viewScale :=
  congrArg (List.map c.viewScale) (chosen_le c.scales c.lateScales)

theorem exists_of_mem_drop {xs : List α} (h : x ∈ xs.drop n) : ∃ i, n ≤ i ∧ xs[i]? = some x := by
  obtain ⟨k, hk⟩ := mem_iff_getElem?.mp h
  rw [getElem?_drop] at hk
  exact ⟨n + k, Nat.le_add_right n k, hk⟩

theorem mem_drop_of_getElem? {xs : List α} (hi : n ≤ i) (hx : xs[i]? = some x) : x ∈ xs.drop n := by
  refine mem_iff_getElem?.mpr ⟨i - n, ?_⟩
  rwa [getElem?_drop, Nat.add_sub_cancel' hi]

/-- The kind of the numbers on a scale in late source: that of the unit that stands in for its
unit. -/
def scaleKind? (c : Model) (e : ScaleEntry) : Option NumericKind :=
  e.unit.bind fun j => (c.units[c.standIn j]?).map (·.kind)

/-- **Names tell a scale and its relatives apart** as far as late source converts between them: no
two of them have the name of a late scale with numbers of its kind. -/
def ScalesApart (c : Model) (i : Nat) (e : ScaleEntry) : Prop :=
  ∀ j ∈ i :: e.relatives, ∀ k ∈ i :: e.relatives, ∀ l ∈ c.scales.drop c.lateScales,
    c.scaleName? j = some l.name → c.scaleName? k = some l.name →
      c.scaleKind? l = c.scaleKind? e → j = k

instance (c : Model) (i : Nat) (e : ScaleEntry) : Decidable (c.ScalesApart i e) :=
  inferInstanceAs (Decidable (∀ j ∈ _, _))

/-- The relatives of a scale are the other members of its family. -/
theorem Linked.nodup_scaleRelatives (h : c.Linked) (he : c.scales[i]? = some e)
    (hf : validScaleFamily e = some f) : (i :: e.relatives).Nodup := by
  have hlink := (linkScale_of_some hf c.scales i).symm.trans (h.linkScale_eq he)
  have hrelatives : e.relatives = (members validScaleFamily c.scales f).filter (· ≠ i) :=
    (congrArg ScaleEntry.relatives hlink).symm
  rw [hrelatives, nodup_cons]
  refine ⟨by simp, ?_⟩
  exact ((pairwise_places c.scales _).imp Nat.ne_of_lt).filter _

section Enlarged

variable (h : Enlarged m c) (hi : c.lateScales ≤ i) (he : c.scales[i]? = some e)
include h hi he

theorem Enlarged.kind_viewScale :
    ((c.viewScale e).unit.bind c.lateView.unit?).map (·.unit.kind) = c.scaleKind? e := by
  have hi' : m.scales.length ≤ i := h.lateScales ▸ hi
  obtain ⟨j, hj, hlt⟩ := h.scales i e hi' he
  obtain ⟨r, hr, hnamed, hname⟩ :=
    Refers.exists_standIn (.scale he ((late_scale_iff h).mpr hi') hj) hlt
  obtain ⟨w, hw, -⟩ := Option.map_eq_some_iff.mp hname
  have hunit : (c.viewScale e).unit = some r.name := by
    rw [viewScale, hj, Option.bind_some, unitName?, hr]
    rfl
  rw [hunit, Option.bind_some, lateView, unit?_view, hnamed, Option.bind_some, scaleKind?, hj,
    Option.bind_some, hw]
  rfl

end Enlarged

section Declared

variable (h : Enlarged m c) (hs : ScalesDeclared options m c)
include h hs

theorem ScalesDeclared.scale?_eq (he : e ∈ c.scales.drop c.lateScales) :
    c.lateView.scale? e.name = some (c.viewScale e) := by
  unfold View.scale?
  rw [scales_lateView]
  refine find?_eq_some_of_unique ?_ (decide_eq_true rfl) fun s hs' hname => ?_
  · exact mem_reverse.mpr (mem_map_of_mem he)
  · obtain ⟨t, ht, rfl⟩ := mem_map.mp (mem_reverse.mp hs')
    rw [h.lateScales] at he ht
    have hname : t.name = e.name := of_decide_eq_true hname
    rw [inj_on_of_nodup_map hs.names ht he hname]

/-- The names that late source converts from are those of late scales. -/
theorem ScalesDeclared.isConvertible_iff :
    isConvertible c.lateView kind name = true ↔
      ∃ l ∈ c.scales.drop c.lateScales, l.name = name ∧ c.scaleKind? l = some kind := by
  unfold isConvertible
  rw [decide_eq_true_iff]
  have hkind (l : ScaleEntry) (hl : l ∈ c.scales.drop c.lateScales) :
      ((some (c.viewScale l)).bind fun other => other.unit.bind c.lateView.unit?).map
        (·.unit.kind) = c.scaleKind? l := by
    obtain ⟨i, hi, he⟩ := exists_of_mem_drop hl
    exact h.kind_viewScale hi he
  constructor
  · intro hfound
    cases hother : c.lateView.scale? name with
    | none =>
      rw [hother] at hfound
      cases hfound
    | some other =>
      obtain ⟨hmem, rfl⟩ := name_of_scale? hother
      rw [scales_lateView] at hmem
      obtain ⟨l, hl, rfl⟩ := mem_map.mp hmem
      rw [hother, hkind l hl] at hfound
      exact ⟨l, hl, rfl, hfound⟩
  · rintro ⟨l, hl, rfl, hfound⟩
    rw [hs.scale?_eq h hl, hkind l hl, hfound]

/-- **The file of a late scale converts once from each scale**, and never from itself, exactly if
names tell it and its relatives apart. -/
theorem ScalesDeclared.nodup_convertedFrom_iff (hi : c.lateScales ≤ i) (he : c.scales[i]? = some e)
    (hsource : scaleSource c.lateView (c.viewScale e) = .ok source) :
    (source.scale.name :: convertedFrom c.lateView source).Nodup ↔ c.ScalesApart i e := by
  have hlate : e ∈ c.scales.drop c.lateScales := mem_drop_of_getElem? hi he
  obtain ⟨found, family, hfound, hfamily, rfl⟩ := eq_of_scaleSource hsource
  have hkind : c.scaleKind? e = some found.unit.kind := by
    rw [← h.kind_viewScale hi he, hfound]
    rfl
  have hself : isConvertible c.lateView found.unit.kind e.name = true :=
    (hs.isConvertible_iff h).mpr ⟨e, hlate, rfl, hkind⟩
  have hvalid : validScaleFamily e = some family := by
    rw [validScaleFamily, hs.valid e (h.lateScales ▸ hlate)]
    exact hfamily
  have hname : c.scaleName? i = some e.name := by
    rw [scaleName?, he]
    rfl
  have hlist : (c.viewScale e).name :: (c.viewScale e).relatives.filter
        (isConvertible c.lateView found.unit.kind) =
      ((i :: e.relatives).filterMap c.scaleName?).filter
        (isConvertible c.lateView found.unit.kind) := by
    rw [filterMap_cons_some hname, filter_cons_of_pos hself]
    rfl
  unfold convertedFrom ScalesApart
  rw [hlist, nodup_filter_filterMap_iff (h.linked.nodup_scaleRelatives he hvalid), hkind]
  constructor
  · intro hall j hj k hk l hl hjl hkl hlkind
    exact hall j hj k hk l.name hjl hkl ((hs.isConvertible_iff h).mpr ⟨l, hl, rfl, hlkind⟩)
  · intro hall j hj k hk name hjn hkn hconvertible
    obtain ⟨l, hl, rfl, hlkind⟩ := (hs.isConvertible_iff h).mp hconvertible
    exact hall j hj k hk l hl hjn hkn hlkind

theorem ScalesDeclared.scalesApart
    (hunused : ∀ s ∈ m.scales, ∀ l ∈ c.scales.drop c.lateScales, s.name ≠ l.name) :
    c.ScalesApart i e := by
  have hplace {j : Nat} {l : ScaleEntry} (hl : l ∈ c.scales.drop c.lateScales)
      (hj : c.scaleName? j = some l.name) : c.lateScales ≤ j ∧ c.scales[j]? = some l := by
    obtain ⟨s, hs', hname⟩ := Option.map_eq_some_iff.mp hj
    have hle : c.lateScales ≤ j := by
      by_contra hlt
      rw [h.lateScales, Nat.not_le] at hlt
      obtain ⟨t, ht, hname'⟩ := hs.early j s hlt hs'
      exact hunused t ht l hl (hname'.trans hname)
    refine ⟨hle, ?_⟩
    have hlate := mem_drop_of_getElem? hle hs'
    rw [h.lateScales] at hlate hl
    rw [hs', inj_on_of_nodup_map hs.names hlate hl hname]
  intro j _ k _ l hl hjl hkl _
  obtain ⟨hj, hjl⟩ := hplace hl hjl
  obtain ⟨hk, hkl⟩ := hplace hl hkl
  have hnodup : (c.scales.drop c.lateScales).Nodup := by
    rw [h.lateScales]
    exact hs.names.of_map
  have hsame : j - c.lateScales = k - c.lateScales := by
    refine (getElem?_inj ?_ hnodup).mp ?_
    · have := lt_of_getElem? hjl
      rw [length_drop]
      omega
    · rw [getElem?_drop, getElem?_drop, Nat.add_sub_cancel' hj, Nat.add_sub_cancel' hk,
        hjl, hkl]
  omega

end Declared

/-! ### Late source -/

/-- The conversions in the files of scales, but for a file that the root file has taken. -/
def writtenConversions (sources : List ScaleSource) : List Conversion :=
  (sources.filter fun s => moduleName s.scale.name ≠ "mod").flatMap (·.conversions)

theorem ScalesDeclared.exists_sources (h : Enlarged m c) (hs : ScalesDeclared options m c)
    (hb : generate config c.lateView = .ok b) :
    ∃ sources : List ScaleSource,
      List.Forall₂ (fun e source => scaleSource c.lateView (c.viewScale e) = .ok source)
        (c.scales.drop c.lateScales) sources ∧
      ∀ source ∈ sources, moduleName source.scale.name ≠ "mod" →
        b.files.get? (fileName (moduleName source.scale.name)) =
          some (Source.text (source.lines config)) := by
  obtain ⟨s, hof, -, hparts⟩ := exists_sources_of_generate hb
  have hvalid : c.lateView.scales.filter (·.valid) =
      (c.scales.drop c.lateScales).map c.viewScale := by
    rw [scales_lateView]
    refine filter_eq_self.mpr fun e he => ?_
    obtain ⟨t, ht, rfl⟩ := mem_map.mp he
    exact hs.valid t (h.lateScales ▸ ht)
  refine ⟨s.scales, ?_, fun source hsource => hparts (Sources.scalePart config source) ?_⟩
  · have hall := hof.scales
    rwa [hvalid, forall₂_map_left_iff] at hall
  · exact mem_cons_of_mem _ (mem_append_right _
      (mem_append_left _ (mem_map_of_mem hsource)))

/-- **When each conversion between late scales is written once.** -/
theorem ScalesDeclared.convertOnce_iff (h : Enlarged m c) (hs : ScalesDeclared options m c)
    (hsources : List.Forall₂ (fun e source => scaleSource c.lateView (c.viewScale e) = .ok source)
      (c.scales.drop c.lateScales) sources) :
    ConvertOnce (writtenConversions sources) ↔
      ∀ i e, c.lateScales ≤ i → c.scales[i]? = some e → moduleName e.name ≠ "mod" →
        c.ScalesApart i e := by
  have hwords : ∀ s ∈ c.lateView.scales, '#' ∉ s.name.toList := by
    intro s hs'
    rw [scales_lateView] at hs'
    obtain ⟨e, he, rfl⟩ := mem_map.mp hs'
    exact (hs.word e (h.lateScales ▸ he)).notMem (by decide +kernel)
  have hscales : sources.map (·.scale) = (c.scales.drop c.lateScales).map c.viewScale := by
    rw [← forall₂_eq_eq_eq, forall₂_map_left_iff, forall₂_map_right_iff]
    exact hsources.flip.imp fun _ _ hsource => scale_of_scaleSource hsource
  have hentry : ∀ s ∈ sources, ∃ e ∈ c.scales.drop c.lateScales,
      scaleSource c.lateView (c.viewScale e) = .ok s := fun _ => exists_of_forall₂ hsources.flip
  have hnames : (sources.map (·.scale.name)).Nodup := by
    have hmap : sources.map (·.scale.name) = (c.scales.drop c.lateScales).map (·.name) := by
      have := congrArg (List.map (·.name)) hscales
      rwa [map_map, map_map] at this
    rw [hmap, h.lateScales]
    exact hs.names
  unfold writtenConversions
  rw [convertOnce_flatMap_iff hwords]
  · constructor
    · intro hall i e hi he hmod
      obtain ⟨source, hmem, hsource⟩ := exists_of_forall₂ hsources (mem_drop_of_getElem? hi he)
      refine (hs.nodup_convertedFrom_iff h hi he hsource).mp (hall source ?_)
      refine mem_filter.mpr ⟨hmem, decide_eq_true ?_⟩
      rwa [scale_of_scaleSource hsource]
    · intro hall source hmem
      obtain ⟨hmem, hmod⟩ := mem_filter.mp hmem
      obtain ⟨e, he, hsource⟩ := hentry source hmem
      obtain ⟨i, hi, he⟩ := exists_of_mem_drop he
      refine (hs.nodup_convertedFrom_iff h hi he hsource).mpr (hall i e hi he ?_)
      have hmod := of_decide_eq_true hmod
      rwa [scale_of_scaleSource hsource] at hmod
  · intro source hmem
    obtain ⟨e, he, hsource⟩ := hentry source (mem_of_mem_filter hmem)
    rw [scale_of_scaleSource hsource, scales_lateView]
    exact ⟨mem_map_of_mem he, hsource⟩
  · exact hnames.sublist (filter_sublist.map _)

theorem fullView_eq_lateView (hunits : c.lateUnits = 0) (hscales : c.lateScales = 0) :
    c.fullView = c.lateView := by
  unfold fullView lateView
  congr 1
  unfold Selection.full Selection.late
  rw [hunits, hscales]
  simp

/-- **When late source converts each scale once from another.** The file of a late scale, unless
the root file has taken it, holds its conversions. None of them is from a scale into itself, and no
two are between the same scales, exactly if names tell each late scale and its relatives apart as far
as they lead to late scales. This is so if names must not be used again or no late scale has the
name of an earlier one, and so for a first text, all of which is late. -/
theorem late_scaleConversions_once_iff {text : String} {d : Compilation} {config : Config}
    {b : Bundle} (hd : m.extend text options = .ok d) (hok : d.isSuccess = true)
    (hb : generate config d.model.lateView = .ok b) :
    ∃ sources : List ScaleSource,
      List.Forall₂ (fun e source => scaleSource d.model.lateView (d.model.viewScale e) = .ok source)
        (d.model.scales.drop d.model.lateScales) sources ∧
      (∀ source ∈ sources, moduleName source.scale.name ≠ "mod" →
        b.files.get? (fileName (moduleName source.scale.name)) =
          some (Source.text (source.lines config))) ∧
      (ConvertOnce (writtenConversions sources) ↔
        ∀ i e, d.model.lateScales ≤ i → d.model.scales[i]? = some e → moduleName e.name ≠ "mod" →
          d.model.ScalesApart i e) ∧
      (options.redeclaration = .reject ∨
          (∀ s ∈ m.scales, ∀ l ∈ d.model.scales.drop d.model.lateScales, s.name ≠ l.name) →
        ConvertOnce (writtenConversions sources)) ∧
      (m.units = [] → m.scales = [] →
        d.model.fullView = d.model.lateView ∧ ConvertOnce (writtenConversions sources)) := by
  have henlarged := enlarged_of_extend hd hok
  have hdeclared := scalesDeclared_of_extend hd hok
  obtain ⟨sources, hsources, hfiles⟩ := hdeclared.exists_sources henlarged hb
  have hiff := hdeclared.convertOnce_iff henlarged hsources
  have honce (hunused : ∀ s ∈ m.scales, ∀ l ∈ d.model.scales.drop d.model.lateScales,
      s.name ≠ l.name) : ConvertOnce (writtenConversions sources) :=
    hiff.mpr fun _ _ _ _ _ => hdeclared.scalesApart henlarged hunused
  refine ⟨sources, hsources, hfiles, hiff, ?_, fun hunits hscales => ⟨?_, honce ?_⟩⟩
  · rintro (hreject | hunused)
    · refine honce fun s hs l hl => hdeclared.unused hreject l ?_ s hs
      exact henlarged.lateScales ▸ hl
    · exact honce hunused
  · refine fullView_eq_lateView ?_ ?_
    · rw [henlarged.lateUnits, hunits, length_nil]
    · rw [henlarged.lateScales, hscales, length_nil]
  · rw [hscales]
    exact fun s hs => absurd hs not_mem_nil

def kelvins : String :=
  "unit Kelvin \"K\" = <Temperature>; scale TempK AbsoluteZero = 0 from Kelvin;"

/-- Temperatures above another point, under a name that is in use, and one above absolute zero. -/
def otherKelvins : String :=
  "scale TempK Freezing = 0 from Kelvin; scale TempC AbsoluteZero = 273.15 from Kelvin;"

/-- A name that is used again in another family leaves one conversion, though it is from the wrong
scale: names still tell the members of each family apart. -/
theorem late_scaleConversions_once_iff_otherKelvins :
    ∃ c d b, compile kelvins { kind := .decimal } = .ok c ∧
      (c.model.settle "si").extend otherKelvins { kind := .decimal } = .ok d ∧
      d.isSuccess = true ∧ generate {} d.model.lateView = .ok b ∧
      d.model.scales.map (fun e => (e.name, e.relatives)) =
        [("TempK", [2]), ("TempK", []), ("TempC", [0])] ∧ ∃ sources : List ScaleSource,
        (writtenConversions sources).map (fun x => (x.source, x.target)) = [("TempK", "TempC")] ∧
        (∀ source ∈ sources, moduleName source.scale.name ≠ "mod" →
          b.files.get? (fileName (moduleName source.scale.name)) =
            some (Source.text (source.lines {}))) ∧
        ∀ i e, d.model.lateScales ≤ i → d.model.scales[i]? = some e → moduleName e.name ≠ "mod" →
          d.model.ScalesApart i e := by
  obtain ⟨c, hc, d, hd, hok, hscales, b, hb, sources, hmapM, honce, hpairs⟩ :
      ∃ c, compile kelvins { kind := .decimal } = .ok c ∧
        ∃ d, (c.model.settle "si").extend otherKelvins { kind := .decimal } = .ok d ∧
          d.isSuccess = true ∧ d.model.scales.map (fun e => (e.name, e.relatives)) =
            [("TempK", [2]), ("TempK", []), ("TempC", [0])] ∧
        ∃ b, generate {} d.model.lateView = .ok b ∧
        ∃ sources, ((d.model.scales.drop d.model.lateScales).mapM fun e =>
            scaleSource d.model.lateView (d.model.viewScale e)) = .ok sources ∧
          ConvertOnce (writtenConversions sources) ∧
          (writtenConversions sources).map (fun x => (x.source, x.target)) =
            [("TempK", "TempC")] := by
    decide +kernel
  obtain ⟨sources', hsources, hfiles, hiff, -, -⟩ := late_scaleConversions_once_iff hd hok hb
  cases hmapM.symm.trans (mapM_eq_ok_iff.mpr hsources)
  exact ⟨c, d, b, hc, hd, hok, hb, hscales, sources, hpairs, hfiles, hiff.mp honce⟩

/-- Temperatures above absolute zero, one of them under a name that is in use. -/
def kelvinsAgain : String :=
  "scale TempK AbsoluteZero = 5 from Kelvin; scale TempC AbsoluteZero = 273.15 from Kelvin;"

/-- **A name that is used again in the same family is converted from twice**, and from itself. -/
theorem late_scaleConversions_kelvinsAgain :
    ∃ c d b, compile kelvins { kind := .decimal } = .ok c ∧
      (c.model.settle "si").extend kelvinsAgain { kind := .decimal } = .ok d ∧
      d.isSuccess = true ∧ generate {} d.model.lateView = .ok b ∧ ∃ sources : List ScaleSource,
        List.Forall₂
          (fun e source => scaleSource d.model.lateView (d.model.viewScale e) = .ok source)
          (d.model.scales.drop d.model.lateScales) sources ∧
        (writtenConversions sources).map (fun x => (x.source, x.target)) =
          [("TempK", "TempK"), ("TempC", "TempK"), ("TempK", "TempC"), ("TempK", "TempC")] := by
  simp only [← mapM_eq_ok_iff, exists_and_left]
  decide +kernel

end Model

end Quantity
