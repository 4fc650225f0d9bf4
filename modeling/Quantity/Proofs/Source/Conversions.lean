import Quantity.Proofs.Source.Complete
import Quantity.Proofs.View.Closed

/-!
# Conversions between relatives

The file of a late unit converts it from and into its relatives. A view keeps the bare names of
relatives, and a name leads to the last shown unit that has it before it leads to an external one.
So a relative that shares its name with a unit of another family is passed over, and the other one
stands in for it. `late_conversions_eq` says which conversions are written, and when they are the
ones that belong there.
-/

namespace Quantity

open List

/-- **Replacing entries shows**, if a replacement stays as it is: the parts of the entries are the
same only if each entry with a part has been kept. -/
theorem perm_flatMap_iff {α β : Type} {f : α → List β} {g : α → α} {xs : List α} (hxs : xs.Nodup)
    (hf : ∀ x, (f x).Nodup) (hapart : ∀ x y, x ≠ y → (f x).Disjoint (f y))
    (hg : ∀ x ∈ xs, g (g x) = g x) :
    (xs.flatMap fun x => f (g x)).Perm (xs.flatMap f) ↔
      ∀ x ∈ xs, f x ≠ [] ∨ f (g x) ≠ [] → g x = x := by
  have hsame {x y : α} {b : β} (hx : b ∈ f x) (hy : b ∈ f y) : x = y :=
    Classical.byContradiction fun hne => hapart x y hne hx hy
  constructor
  · intro hperm x hx hsome
    have hnodup : (xs.flatMap fun x => f (g x)).Nodup := by
      rw [hperm.nodup_iff, nodup_flatMap]
      exact ⟨fun x _ => hf x, hxs.imp fun hne => hapart _ _ hne⟩
    rcases hsome with hsome | hsome
    · -- the part of the entry comes from an entry that is replaced by it
      obtain ⟨b, hb⟩ := exists_mem_of_ne_nil _ hsome
      have hmem := hperm.mem_iff.mpr (mem_flatMap.mpr ⟨x, hx, hb⟩)
      obtain ⟨y, hy, hby⟩ := mem_flatMap.mp hmem
      obtain rfl := hsame hb hby
      exact hg y hy
    · -- the replacement is an entry too, and its part would be there twice
      obtain ⟨b, hb⟩ := exists_mem_of_ne_nil _ hsome
      have hmem := hperm.mem_iff.mp (mem_flatMap.mpr ⟨x, hx, hb⟩)
      obtain ⟨y, hy, hby⟩ := mem_flatMap.mp hmem
      obtain rfl := hsame hb hby
      refine Classical.byContradiction fun hne => ?_
      have : Std.Symm (Function.onFun List.Disjoint fun x => f (g x)) :=
        ⟨fun _ _ h _ hx hy => h hy hx⟩
      have hdisjoint := (nodup_flatMap.mp hnodup).2.forall hy hx hne
      have hb' : b ∈ f (g (g x)) := by rwa [hg x hx]
      exact hdisjoint hb' hb
  · intro hkept
    refine .of_eq (flatMap_congr fun x hx => ?_)
    by_cases hsome : f x ≠ [] ∨ f (g x) ≠ []
    · rw [hkept x hx hsome]
    · obtain ⟨hnone, hnone'⟩ := not_or.mp hsome
      rw [not_not.mp hnone, not_not.mp hnone']

namespace Model

open Source

variable {m c : Model} {s : Selection} {choice : Nat → Bool} {name : String} {i j k : Nat}
  {u : UnitEntry}

/-! ### Units by name -/

/-- The last of the chosen units that has a name. -/
def lastNamed? (m : Model) (choice : Nat → Bool) (name : String) : Option Nat :=
  (m.chosenPlaces choice).reverse.find? fun i => m.unitName? i = some name

/-- The unit that a name leads to in a view: the last shown one, or else the last external one. -/
def named? (m : Model) (s : Selection) (name : String) : Option Nat :=
  (m.lastNamed? s.unit name).or (m.lastNamed? (m.isExternal s) name)

theorem lastNamed?_eq_some (h : m.lastNamed? choice name = some i) :
    choice i = true ∧ m.unitName? i = some name := by
  have hmem := mem_reverse.mp (mem_of_find?_eq_some h)
  have hname := find?_some h
  exact ⟨(mem_chosenPlaces.mp hmem).2, of_decide_eq_true hname⟩

theorem viewUnits_eq_filterMap :
    m.viewUnits s choice =
      (m.chosenPlaces choice).filterMap fun i => (m.units[i]?).map (m.viewUnit s i) := by
  have hall := m.forall₂_viewUnits s choice
  generalize m.chosenPlaces choice = places, m.viewUnits s choice = views at hall ⊢
  induction hall with
  | nil => rfl
  | cons hview _ ih =>
    obtain ⟨u, hu, rfl⟩ := hview
    rw [filterMap_cons_some (by rw [hu]; rfl), ← ih]

theorem find?_viewUnits :
    (m.viewUnits s choice).reverse.find? (·.name = name) =
      (m.lastNamed? choice name).bind fun i => (m.units[i]?).map (m.viewUnit s i) := by
  rw [viewUnits_eq_filterMap, ← filterMap_reverse, find?_filterMap]
  congr 2
  funext i
  rw [unitName?]
  cases m.units[i]? with
  | none => rfl
  | some u => simp [viewUnit]

theorem unit?_view :
    (m.view s).unit? name = (m.named? s name).bind fun k =>
      (m.units[k]?).map fun w => ⟨m.viewUnit s k w, !s.unit k⟩ := by
  have hshown : (m.view s).shownUnit? name =
      (m.lastNamed? s.unit name).bind fun i => (m.units[i]?).map (m.viewUnit s i) := find?_viewUnits
  have hexternal : (m.view s).externals.reverse.find? (·.name = name) =
      (m.lastNamed? (m.isExternal s) name).bind fun i => (m.units[i]?).map (m.viewUnit s i) :=
    find?_viewUnits
  rw [View.unit?, hshown, hexternal, named?]
  cases hlast : m.lastNamed? s.unit name with
  | some k =>
    obtain ⟨hk, hname⟩ := lastNamed?_eq_some hlast
    obtain ⟨w, hw, -⟩ := Option.map_eq_some_iff.mp hname
    rw [Option.some_or, Option.bind_some, Option.bind_some, hw, hk]
    rfl
  | none =>
    rw [Option.none_or]
    cases hlast : m.lastNamed? (m.isExternal s) name with
    | none => rfl
    | some k =>
      obtain ⟨hk, hname⟩ := lastNamed?_eq_some hlast
      obtain ⟨w, hw, -⟩ := Option.map_eq_some_iff.mp hname
      rw [Option.bind_some, Option.bind_some, hw, (isExternal_iff.mp hk).1]
      rfl

/-- Whatever can be seen in a view has a name that leads somewhere. -/
theorem exists_named? (hu : m.units[i]? = some u) (hi : s.unit i = true ∨ m.Refers s i) :
    ∃ k, m.named? s u.name = some k ∧ m.unitName? k = some u.name := by
  have hfind {choice : Nat → Bool} (hchoice : choice i = true) :
      (m.lastNamed? choice u.name).isSome = true := by
    refine find?_isSome.mpr ⟨i, mem_reverse.mpr (mem_chosenPlaces.mpr ⟨?_, hchoice⟩), ?_⟩
    · exact lt_of_getElem? hu
    · rw [unitName?, hu]
      exact decide_eq_true rfl
  have hsome : (m.named? s u.name).isSome = true := by
    rw [named?, Option.isSome_or, Bool.or_eq_true]
    cases hs : s.unit i with
    | true => exact .inl (hfind hs)
    | false =>
      have hrefers : m.Refers s i := hi.resolve_left (by rw [hs]; exact Bool.false_ne_true)
      exact .inr (hfind (isExternal_iff.mpr ⟨hs, hrefers⟩))
  obtain ⟨k, hk⟩ := Option.isSome_iff_exists.mp hsome
  refine ⟨k, hk, ?_⟩
  rcases Option.or_eq_some_iff.mp hk with hk | ⟨-, hk⟩ <;> exact (lastNamed?_eq_some hk).2

/-! ### Conversions of late units -/

/-- The type of a unit in source: its name, in its module if it comes from one. -/
def unitType (u : UnitEntry) : String := pathIn u.origin.module? u.name

def TypesApart (m : Model) : Prop := (m.units.map unitType).Nodup

theorem TypesApart.eq (h : m.TypesApart) (hu : m.units[i]? = some u) (hw : m.units[j]? = some w)
    (htype : unitType u = unitType w) : i = j := by
  refine (getElem?_inj ?_ h).mp ?_
  · rw [length_map]
    exact lt_of_getElem? hu
  · rw [getElem?_map, getElem?_map, hu, hw, Option.map_some, Option.map_some, htype]

/-- **The conversions between a late unit and another unit** of its kind: one from the other unit,
and one into it if that one is not late, since its own file is written already. -/
def conversionsWith (m : Model) (u : UnitEntry) (j : Nat) : List Conversion :=
  match m.units[j]? with
  | some r =>
    if r.kind ≠ u.kind then []
    else unitConversion (unitType u) (unitType r)
      :: if m.lateUnits ≤ j then [] else [unitConversion (unitType r) (unitType u)]
  | none => []

/-- The unit that stands in for another one in late source: the one that its bare name leads to. -/
def standIn (m : Model) (j : Nat) : Nat := ((m.unitName? j).bind (m.named? (.late m))).getD j

/-- The name of a unit that late source refers to leads to a unit of that name. -/
theorem Refers.exists_standIn (hrefers : c.Refers (.late c) j) (hj : j < c.units.length) :
    ∃ r, c.units[j]? = some r ∧ c.named? (.late c) r.name = some (c.standIn j) ∧
      c.unitName? (c.standIn j) = some r.name := by
  have hr := getElem?_eq_getElem hj
  obtain ⟨k, hk, hname⟩ := exists_named? hr (.inr hrefers)
  have hstandIn : c.standIn j = k := by
    rw [standIn, unitName?, hr, Option.map_some, Option.bind_some, hk, Option.getD_some]
  exact ⟨_, hr, hstandIn ▸ hk, hstandIn ▸ hname⟩

section Enlarged

variable (h : Enlarged m c) (hi : c.lateUnits ≤ i) (hu : c.units[i]? = some u)
include h hi hu

theorem Enlarged.unitType_eq : unitType u = identifier u.name := by
  rw [unitType, (h.late i u (h.lateUnits ▸ hi) hu).2.2, pathIn]

theorem Enlarged.exists_standIn (hj : j ∈ u.relatives) :
    ∃ r, c.units[j]? = some r ∧ c.named? (.late c) r.name = some (c.standIn j) ∧
      c.unitName? (c.standIn j) = some r.name := by
  have hi' : m.units.length ≤ i := h.lateUnits ▸ hi
  exact Refers.exists_standIn (.family hu ((late_unit_iff h).mpr hi') (.inr hj))
    (h.links_lt hi' hu (.inr hj))

theorem Enlarged.standIn_standIn (hj : j ∈ u.relatives) :
    c.standIn (c.standIn j) = c.standIn j := by
  obtain ⟨r, -, hnamed, hname⟩ := h.exists_standIn hi hu hj
  rw [standIn, hname, Option.bind_some, hnamed, Option.getD_some]

theorem Enlarged.relativeConversions_eq (hj : j ∈ u.relatives) :
    ∃ n, c.unitName? j = some n ∧ relativeConversions c.lateView (c.viewUnit (.late c) i u) n =
      c.conversionsWith u (c.standIn j) := by
  obtain ⟨r, hr, hnamed, hname⟩ := h.exists_standIn hi hu hj
  obtain ⟨w, hw, -⟩ := Option.map_eq_some_iff.mp hname
  refine ⟨r.name, by rw [unitName?, hr]; rfl, ?_⟩
  have hunit : c.lateView.unit? r.name =
      some ⟨c.viewUnit (.late c) (c.standIn j) w, !(Selection.late c).unit (c.standIn j)⟩ := by
    rw [lateView, unit?_view, hnamed, Option.bind_some, hw]
    rfl
  rw [relativeConversions, hunit, conversionsWith, hw, h.unitType_eq hi hu]
  dsimp only
  by_cases hlate : c.lateUnits ≤ c.standIn j
  · have hshown : (Selection.late c).unit (c.standIn j) = true := decide_eq_true hlate
    rw [hshown, h.unitType_eq hlate hw, if_pos hlate]
    rfl
  · have hhidden : (Selection.late c).unit (c.standIn j) = false := decide_eq_false hlate
    rw [hhidden, if_neg hlate]
    rfl

theorem Enlarged.unitConversions_eq :
    unitConversions c.lateView (c.viewUnit (.late c) i u) =
      u.relatives.flatMap fun j => c.conversionsWith u (c.standIn j) := by
  have hall : ∀ j ∈ u.relatives, ∃ n, c.unitName? j = some n ∧
      relativeConversions c.lateView (c.viewUnit (.late c) i u) n =
        c.conversionsWith u (c.standIn j) := fun j => h.relativeConversions_eq hi hu
  show (u.relatives.filterMap c.unitName?).flatMap _ = _
  generalize u.relatives = js at hall ⊢
  induction js with
  | nil => rfl
  | cons j js ih =>
    obtain ⟨⟨n, hn, heq⟩, hall⟩ := forall_mem_cons.mp hall
    rw [filterMap_cons_some hn, flatMap_cons, flatMap_cons, heq, ih hall]

end Enlarged

theorem mem_conversionsWith (h : conversion ∈ m.conversionsWith u j) :
    ∃ r, m.units[j]? = some r ∧ (conversion = unitConversion (unitType u) (unitType r) ∨
      conversion = unitConversion (unitType r) (unitType u)) := by
  unfold conversionsWith at h
  cases hr : m.units[j]? with
  | none =>
    rw [hr] at h
    cases h
  | some r =>
    rw [hr] at h
    refine ⟨r, rfl, ?_⟩
    dsimp only at h
    split_ifs at h
    · cases h
    · exact .inl (mem_singleton.mp h)
    · simpa using h

theorem TypesApart.disjoint (h : m.TypesApart) (hjk : j ≠ k) :
    (m.conversionsWith u j).Disjoint (m.conversionsWith u k) := by
  intro conversion hj hk
  obtain ⟨r, hr, hj⟩ := mem_conversionsWith hj
  obtain ⟨w, hw, hk⟩ := mem_conversionsWith hk
  refine hjk (h.eq hr hw ?_)
  rcases hj with rfl | rfl <;> rcases hk with hk | hk <;>
    simp only [unitConversion, Conversion.mk.injEq] at hk
  · exact hk.1
  · exact hk.1.trans hk.2.1
  · exact hk.2.1.trans hk.1
  · exact hk.2.1

theorem TypesApart.nodup (h : m.TypesApart) (hi : m.lateUnits ≤ i) (hu : m.units[i]? = some u)
    (j : Nat) : (m.conversionsWith u j).Nodup := by
  unfold conversionsWith
  cases hr : m.units[j]? with
  | none => exact nodup_nil
  | some r =>
    dsimp only
    split_ifs with hkind hlate
    · exact nodup_nil
    · exact nodup_singleton _
    · refine nodup_cons.mpr ⟨fun hmem => hlate ?_, nodup_singleton _⟩
      have heq := congrArg Conversion.source (mem_singleton.mp hmem)
      rw [h.eq hr hu heq]
      exact hi

/-- **Which conversions are written for a late unit.** The file of a late unit, unless the root file
has taken it, holds the conversions with the units that stand in for its relatives, with the
operations behind them. If types tell
units apart, these are the conversions that belong there exactly if each relative of its kind stands
in for itself, and so does each relative whose stand-in is of its kind. -/
theorem late_conversions_eq {text : String} {options : Options} {d : Compilation} {config : Config}
    {b : Bundle} (hd : m.extend text options = .ok d) (hok : d.isSuccess = true)
    (hb : generate config d.model.lateView = .ok b) (hi : d.model.lateUnits ≤ i)
    (hu : d.model.units[i]? = some u) :
    ∃ source, unitSource d.model.lateView (d.model.viewUnit (.late d.model) i u) = .ok source ∧
      (moduleName u.name ≠ "mod" → b.files.get? (fileName (moduleName u.name)) =
        some (Source.text (source.lines config))) ∧
      source.lines config = UnitSource.lines config ⟨source.unit, source.family, [], []⟩ ++
        source.conversions.flatMap (fun x => apart x.lines) ++
          source.operations.flatMap (fun x => apart x.lines) ∧
      source.conversions =
        u.relatives.flatMap (fun j => d.model.conversionsWith u (d.model.standIn j)) ∧
      (d.model.TypesApart →
        (source.conversions.Perm (u.relatives.flatMap (d.model.conversionsWith u)) ↔
          ∀ j ∈ u.relatives, d.model.conversionsWith u j ≠ [] ∨
            d.model.conversionsWith u (d.model.standIn j) ≠ [] → d.model.standIn j = j)) := by
  have henlarged := enlarged_of_extend hd hok
  have hi' : m.units.length ≤ i := henlarged.lateUnits ▸ hi
  have hmem : d.model.viewUnit (.late d.model) i u ∈ d.model.lateView.units :=
    mem_viewUnits.mpr ⟨i, (late_unit_iff henlarged).mpr hi', u, hu, rfl⟩
  have hvalid := (henlarged.late i u hi' hu).1
  obtain ⟨source, hsource, hfile⟩ := exists_unitSource_of_generate hb hmem hvalid
  have hconversions : source.conversions =
      u.relatives.flatMap fun j => d.model.conversionsWith u (d.model.standIn j) := by
    obtain ⟨family, operations, -, -, rfl⟩ := unitSource_eq_ok_iff.mp hsource
    exact henlarged.unitConversions_eq hi hu
  refine ⟨source, hsource, hfile, UnitSource.lines_eq config source, hconversions,
    fun happart => ?_⟩
  rw [hconversions]
  exact perm_flatMap_iff (henlarged.nodup_relatives hi' hu) (happart.nodup hi hu)
    (fun _ _ => happart.disjoint) fun _ => henlarged.standIn_standIn hi hu

/-- Feet that are masses, and yards that are lengths. -/
def massFeetAndYards : String := "unit Foot \"ft\" = <Mass>; unit Yard \"yd\" = 3 * Meter;"

/-- Late feet stand in for loaded ones: yards are converted from masses, and neither from nor into
loaded feet. -/
theorem late_conversions_eq_massFeetAndYards :
    ∃ (c d : Compilation) (b : Bundle) (u : UnitEntry) (source : UnitSource),
      compile lengths { kind := .decimal } = .ok c ∧ (c.model.settle "si").IsLoaded ∧
      (c.model.settle "si").extend massFeetAndYards { kind := .decimal } = .ok d ∧
      d.isSuccess = true ∧ generate {} d.model.lateView = .ok b ∧
      d.model.lateUnits ≤ 3 ∧ d.model.units[3]? = some u ∧ u.relatives = [0, 1] ∧
      d.model.TypesApart ∧ d.model.standIn 1 = 2 ∧
      b.files.get? (fileName (moduleName u.name)) = some (Source.text (source.lines {})) ∧
      source.conversions.map (fun x => (x.source, x.target)) =
        [("si::Meter", "Yard"), ("Yard", "si::Meter"), ("Foot", "Yard")] ∧
      (u.relatives.flatMap (d.model.conversionsWith u)).map (fun x => (x.source, x.target)) =
        [("si::Meter", "Yard"), ("Yard", "si::Meter"), ("si::Foot", "Yard"), ("Yard", "si::Foot")] ∧
      ¬ source.conversions.Perm (u.relatives.flatMap (d.model.conversionsWith u)) := by
  have hcompiled : ∃ c, compile lengths { kind := .decimal } = .ok c ∧
      c.isSuccess = true ∧
      ∃ d, (c.model.settle "si").extend massFeetAndYards { kind := .decimal } = .ok d ∧
      ∃ b, generate {} d.model.lateView = .ok b ∧ ∃ u ∈ d.model.units[3]?,
        decide (d.isSuccess = true ∧ d.model.lateUnits ≤ 3 ∧
          moduleName u.name ≠ "mod" ∧ u.relatives = [0, 1] ∧ (d.model.units.map unitType).Nodup ∧
          d.model.standIn 1 = 2 ∧ d.model.conversionsWith u 1 ≠ [] ∧
          (u.relatives.flatMap fun j => d.model.conversionsWith u (d.model.standIn j)).map
              (fun x => (x.source, x.target)) =
            [("si::Meter", "Yard"), ("Yard", "si::Meter"), ("Foot", "Yard")] ∧
          (u.relatives.flatMap (d.model.conversionsWith u)).map (fun x => (x.source, x.target)) =
            [("si::Meter", "Yard"), ("Yard", "si::Meter"), ("si::Foot", "Yard"),
              ("Yard", "si::Foot")]) := by
    decide +kernel
  obtain ⟨c, hc, hcok, d, hd, b, hb, u, hu, h⟩ := hcompiled
  obtain ⟨hdok, hlate, hfile, hrelatives, happart, hstandIn, hsome, hwritten, hmeant⟩ :=
    of_decide_eq_true h
  obtain ⟨source, -, hget, -, hconversions, hperm⟩ := late_conversions_eq hd hdok hb hlate hu
  refine ⟨c, d, b, u, source, hc, (enlarged_of_extend hc hcok).isLoaded_settle "si", hd, hdok, hb,
    hlate, hu, hrelatives, happart, hstandIn, hget hfile, hconversions ▸ hwritten, hmeant,
    fun h => ?_⟩
  have hkept := (hperm happart).mp h 1 (hrelatives ▸ by decide) (.inl hsome)
  rw [hstandIn] at hkept
  cases hkept

end Model

end Quantity
