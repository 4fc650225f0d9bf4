import Quantity.Proofs.Catalog.Coherent
import Quantity.Proofs.Loader.Calls

/-!
# Stored modules where they were built

A stored module is not stale in the catalog for which it was built, and it adds there what
compiling added (`publishStored_compiled`). So a program that starts anew and has the same catalog
never compiles twice. This takes a coherent catalog.
-/

namespace Quantity

open Model Elaborate List

/-! ### References -/

theorem mem_of_mem_foldl {ms known : List String}
    (h : r ∈ ms.foldl (fun known m => if known.contains m then known else known ++ [m]) known) :
    r ∈ known ∨ r ∈ ms := by
  induction ms generalizing known with
  | nil => exact .inl h
  | cons m ms ih =>
    rcases ih h with hr | hr
    · dsimp only at hr
      split_ifs at hr
      · exact .inl hr
      · simp only [mem_append, mem_singleton] at hr
        rcases hr with hr | rfl
        · exact .inl hr
        · exact .inr mem_cons_self
    · exact .inr (mem_cons_of_mem _ hr)

/-- The modules that a view refers to are those of the host and of the externals. -/
theorem mem_references (h : r ∈ Loader.references given v) :
    r ∈ given ∨ ∃ u ∈ v.externals, u.module = some r := by
  rcases mem_of_mem_foldl h with hr | hr
  · exact .inl hr
  · exact .inr (mem_filterMap.mp hr)

theorem exists_mem_of_mem_viewUnits {m : Model} (h : u ∈ m.viewUnits s choice) :
    ∃ e ∈ m.units, u.module = e.origin.module? := by
  obtain ⟨⟨e, i⟩, he, hu⟩ := mem_filterMap.mp h
  dsimp only at hu
  split_ifs at hu
  cases hu
  exact ⟨e, mem_of_getElem? (mem_zipIdx_iff_getElem?.mp he), rfl⟩

theorem mem_modules_of_external (h : LateEntries c us ss) (hr : c.Registered)
    (hu : u ∈ (c.lateResolved us ss).lateView.externals) (hmodule : u.module = some r) :
    r ∈ c.modules := by
  obtain ⟨e, he, heq⟩ := exists_mem_of_mem_viewUnits hu
  have hlabel : (e.name, e.origin) ∈ (c.lateModel us ss).units.map fun u => (u.name, u.origin) := by
    rw [← Catalog.map_label_lateResolved]
    exact mem_map.mpr ⟨e, he, rfl⟩
  obtain ⟨e', he', hlabel⟩ := mem_map.mp hlabel
  have horigin : e'.origin.module? = some r := by
    rw [(Prod.mk.inj hlabel).2, ← heq, hmodule]
  rcases mem_append.mp he' with he' | he'
  · obtain ⟨d, hd, rfl⟩ := mem_map.mp he'
    cases horigin
    exact hr.units d hd
  · rw [h.declared e' he'] at horigin
    cases horigin

/-! ### A module in the catalog of its day -/

section Compiled

variable {l : Loader} {c : Catalog} {module source text : String} {late : List UnitEntry}
  {scales : List ScaleEntry}

theorem Compiles.nodup_addedUnits (h : Compiles l c source text late scales) :
    ((addedUnits l c source late).map (·.name)).Nodup := by
  have hlate : (late.map (·.name)).Nodup := by
    rw [h.sound.solution.names]
    exact nodup_names h.sound.admitted.differ
  exact hlate.sublist (filter_sublist.map _)

/-- The module of definitions is not stale in the catalog they were compiled for. -/
theorem Compiles.staleReason?_eq_none (h : Compiles l c source text late scales)
    (hc : c.Coherent) (hr : c.Registered) (hfree : module ∉ c.modules) (src : String) :
    c.staleReason? l.config.references module
      (lateArtifact l c module src (addedUnits l c source late) scales) = none := by
  refine Catalog.staleReason?_eq_none_iff.mpr ⟨rfl, fun r hmem => ?_, fun u hu => ?_, fun s hs => ?_⟩
  · rcases mem_references hmem with hgiven | ⟨u, hu, hmodule⟩
    · exact .inl hgiven
    · exact .inr (mem_modules_of_external h.lateEntries hr hu hmodule)
  · exact Catalog.staleUnit?_late h.lateEntries h.room hc rfl hu
  · exact Catalog.staleScale?_late h.lateEntries h.room hc hr ⟨_, h.restored⟩ hfree
      h.nodup_addedUnits rfl hs

theorem exists_compiles_of_ok (hl : l.builder = .ofDescriptors)
    (hok : (l.compileAndPublish cancellation isFile host module source text).result = .ok r)
    (hasked : (l.compileAndPublish cancellation isFile host module source text).request = some
      request) (hbuild : l.builder.build request = .ok a) :
    ∃ late scales src, Compiles l host.catalog source text late scales ∧
      a = lateArtifact l host.catalog module src (addedUnits l host.catalog source late) scales ∧
      (l.compileAndPublish cancellation isFile host module source text).host.catalog =
        host.catalog.append ⟨a.module, a.units, a.scales⟩ := by
  unfold Loader.compileAndPublish at hok hasked ⊢
  cases hprepare : l.prepare host.catalog module source text with
  | error e =>
    rw [hprepare] at hok
    cases hok
  | ok prepared =>
    obtain ⟨request', ds⟩ := prepared
    rw [hprepare] at hok hasked
    dsimp only at hok hasked ⊢
    obtain ⟨late, scales, bundle, h, -, -, hrequest, -⟩ := prepare_eq_ok_iff.mp hprepare
    rcases l.buildAndPublish_ends cancellation isFile host module request' ds with
      ⟨e, asked, -, heq⟩ | ⟨-, a', m, hbuild', hload, disk, ⟨e, -, heq⟩ | heq⟩
    · rw [heq] at hok
      cases hok
    · rw [heq] at hok
      cases hok
    · rw [heq] at hasked ⊢
      cases hasked
      rw [hl] at hbuild hload hbuild'
      obtain ⟨-, rfl⟩ := Artifact.eq_of_ifOwn hbuild
      obtain ⟨-, rfl⟩ := Artifact.eq_of_ifOwn hbuild'
      obtain ⟨-, rfl⟩ := Artifact.eq_of_ifOwn hload
      exact ⟨late, scales, bundle.merged, h, hrequest, rfl⟩

end Compiled

/-- **A stored module replaces compiling in the catalog for which it was built.** If definitions
are compiled on top of a coherent catalog and the module `a` is built from them, `a` is not stale
in that catalog, and to publish it adds the same entries. The name of the module is free, as every
load makes sure. -/
theorem publishStored_compiled {l : Loader} (hl : l.builder = .ofDescriptors) {host : Host}
    (hc : host.catalog.Coherent) (hr : host.catalog.Registered) {module : String}
    (hfree : module ∉ host.catalog.modules) {cancellation : Cancellation} {isFile : Bool}
    {source text : String} {r : LoadReport} {request : BuildRequest} {a : Artifact}
    (hok : (l.compileAndPublish cancellation isFile host module source text).result = .ok r)
    (hasked : (l.compileAndPublish cancellation isFile host module source text).request =
      some request)
    (hbuild : l.builder.build request = .ok a) :
    host.catalog.staleReason? l.config.references module a = none ∧
      (∃ r, (l.publishStored host a).result = .ok r) ∧
      (l.publishStored host a).host.catalog =
        (l.compileAndPublish cancellation isFile host module source text).host.catalog := by
  obtain ⟨late, scales, src, h, rfl, hcatalog⟩ := exists_compiles_of_ok hl hok hasked hbuild
  rw [hcatalog]
  refine ⟨h.staleReason?_eq_none hc hr hfree src, ?_⟩
  rcases publishStored_cases hl host (lateArtifact l host.catalog module src
    (addedUnits l host.catalog source late) scales) with ⟨-, hpublished, heq⟩ | ⟨hown, -⟩
  · exact ⟨hpublished, heq⟩
  · exact absurd (isOwn_lateArtifact h.lateEntries l module src) hown

/-- A unit of a module with a decimal factor of one. -/
def decimalUnit (module name tag : String) (dimension : Dimension) (family : FamilyId) :
    UnitDescriptor where
  name
  module
  kind := .decimal
  dimension
  factor := NumericKind.decimal.one
  format := ""
  tags := [tag]
  family

/-- Meters, and heights over sea level in meters. -/
def heights : Host where
  catalog :=
    { units := [decimalUnit "si" "Meter" "m" { length := 1 } 0]
      scales :=
        [{ name := "Height"
           module := "si"
           unit := "Meter"
           unitModule := "si"
           offset := NumericKind.decimal.zero
           refPoint := some "SeaLevel"
           format := ""
           family := 1 }]
      modules := ["si"] }

/-- Depths below the sea level of the heights, in feet, and weights in pounds. -/
def depths : String :=
  "unit<decimal> Foot \"ft\" = 0.3 * Meter;
   unit<decimal> Pound \"lb\" = 0.5 * <Mass>;
   scale Depth SeaLevel = 1 from Foot;
   scale Weight = 2 from Pound;"

/-- Feet and depths join families of the catalog, pounds and weights begin new ones. -/
theorem publishStored_compiled_depths :
    heights.catalog.Coherent ∧ heights.catalog.Registered ∧ ∃ r a,
      (Loader.compileAndPublish {} .never true heights "late_depths" "" depths).result = .ok r ∧
      (Loader.compileAndPublish {} .never true heights "late_depths" "" depths).request = some a ∧
      a.units.map (·.family) = [0, 2] ∧ a.scales.map (·.family) = [1, 3] ∧
      heights.catalog.staleReason? [] "late_depths" a = none ∧
      (Loader.publishStored {} heights a).host.catalog =
        (Loader.compileAndPublish {} .never true heights "late_depths" "" depths).host.catalog := by
  have hc : heights.catalog.Coherent :=
    ⟨by decide, by decide, pairwise_singleton _ _⟩
  have hr : heights.catalog.Registered := ⟨by decide, by decide, by decide⟩
  obtain ⟨r, hresult, a, ha, hunits, hscales, hown⟩ :
      ∃ r, (Loader.compileAndPublish {} .never true heights "late_depths" "" depths).result = .ok r ∧
      ∃ a ∈ (Loader.compileAndPublish {} .never true heights "late_depths" "" depths).request,
        a.units.map (·.family) = [0, 2] ∧ a.scales.map (·.family) = [1, 3] ∧
        a.foreignEntries.hasErrors = false := by
    decide +kernel
  have hbuild : Builder.ofDescriptors.build a = .ok a :=
    Artifact.ifOwn_of_isOwn (a.hasErrors_foreignEntries.mp hown) a
  obtain ⟨hfresh, -, hcatalog⟩ := publishStored_compiled rfl hc hr (by decide) hresult ha hbuild
  exact ⟨hc, hr, r, a, hresult, ha, hunits, hscales, hfresh, hcatalog⟩

end Quantity
