import Quantity.Loader
import Quantity.Proofs.Catalog.Late

/-!
# The request for a module

A module is built from the descriptors of the late entries of a model. `requestOf_late` says that
the request asks for these entries in their families, whatever else was worked out about them.
-/

namespace Quantity.Catalog

open Model List

/-- Late entries of a list are described alike if all entries are. -/
theorem filterMap_drop_congr {xs ys : List α} (h : xs.map g = ys.map g) (n : Nat) :
    (xs.drop n).filterMap g = (ys.drop n).filterMap g := by
  have hid (zs : List α) : (zs.drop n).filterMap g = ((zs.map g).drop n).filterMap id := by
    rw [← map_drop, filterMap_map]
    rfl
  rw [hid, hid, h]

theorem describe?_linkUnit (module : String) (units : List UnitEntry) (u : UnitEntry) (i : Nat) :
    (linkUnit units u i).describe? module = u.describe? module := by
  unfold linkUnit
  split <;> rfl

theorem describe?_linkScale (m : Model) (module : String) (scales : List ScaleEntry)
    (s : ScaleEntry) (i : Nat) :
    (linkScale scales s i).describe? m module = s.describe? m module := by
  unfold linkScale
  split <;> rfl

theorem describe?_congr
    (h : m.units.map (fun u => (u.name, u.origin)) = m'.units.map fun u => (u.name, u.origin))
    (module : String) (s : ScaleEntry) : s.describe? m module = s.describe? m' module := by
  unfold ScaleEntry.describe?
  split_ifs
  · cases s.unit with
    | none => rfl
    | some i =>
      rw [Option.bind_some, Option.bind_some]
      rcases getElem?_cases_of_map_eq h i with ⟨hu, hu'⟩ | ⟨u, u', hu, hu', hlabel⟩
      · rw [hu, hu']
      · obtain ⟨hname, horigin⟩ := Prod.mk.inj hlabel
        rw [hu, hu']
        show (s.family.bind fun _ => some _) = s.family.bind fun _ => some _
        rw [hname, horigin]
  · rfl

section Connected

variable {m : Model} {units : List UnitEntry} {scales : List ScaleEntry}

theorem map_units_connected {β : Type} {g : UnitEntry → β}
    (hlink : ∀ units u i, g (linkUnit units u i) = g u)
    (hoperations : ∀ u operations, g { u with operations } = g u) :
    (m.connected units scales).resolveOperations.units.map g = units.map g :=
  (map_mapIdx_eq (fun _ u => hoperations u _) _).trans (map_mapIdx_eq (fun i u => hlink _ u i) _)

theorem map_label_connected :
    (m.connected units scales).resolveOperations.units.map (fun u => (u.name, u.origin)) =
      units.map fun u => (u.name, u.origin) := by
  refine map_units_connected (fun units u i => ?_) fun _ _ => rfl
  unfold linkUnit
  split <;> rfl

theorem map_describe?_units_connected (module : String) :
    (m.connected units scales).resolveOperations.units.map (·.describe? module) =
      units.map (·.describe? module) :=
  map_units_connected (describe?_linkUnit module) fun _ _ => rfl

theorem map_describe?_scales_connected (m' : Model) (module : String) :
    (m.connected units scales).resolveOperations.scales.map (·.describe? m' module) =
      scales.map (·.describe? m' module) :=
  map_mapIdx_eq (fun i s => describe?_linkScale m' module _ s i) _

theorem ofModel_connected
    (h : units.map (fun u => (u.name, u.origin)) = m.units.map fun u => (u.name, u.origin))
    (name : String) :
    LoadedModule.ofModel name (m.connected units scales).resolveOperations =
      ⟨name, units.filterMap (·.describe? name), scales.filterMap (·.describe? m name)⟩ := by
  have hunits : (m.connected units scales).resolveOperations.units.filterMap (·.describe? name) =
      units.filterMap (·.describe? name) :=
    filterMap_drop_congr (map_describe?_units_connected name) 0
  have hscales : (m.connected units scales).resolveOperations.scales.filterMap
      (·.describe? (m.connected units scales).resolveOperations name) =
        scales.filterMap (·.describe? (m.connected units scales).resolveOperations name) :=
    filterMap_drop_congr (map_describe?_scales_connected _ name) 0
  have hcongr : scales.filterMap (·.describe? (m.connected units scales).resolveOperations name) =
      scales.filterMap (·.describe? m name) :=
    filterMap_congr fun s _ => describe?_congr (map_label_connected.trans h) name s
  unfold LoadedModule.ofModel
  rw [hunits, hscales, hcongr]

end Connected

/-- The model once the late entries are in families and all operations are known. -/
def lateResolved (c : Catalog) (us : List UnitEntry) (ss : List ScaleEntry) : Model :=
  ((c.lateModel us ss).connected (c.allUnits us) (c.allScales us ss)).resolveOperations

variable {c : Catalog} {us : List UnitEntry} {ss : List ScaleEntry}

theorem map_label_lateResolved (c : Catalog) (us : List UnitEntry) (ss : List ScaleEntry) :
    (c.lateResolved us ss).units.map (fun u => (u.name, u.origin)) =
      (c.lateModel us ss).units.map fun u => (u.name, u.origin) := by
  refine map_label_connected.trans ?_
  show _ = (c.restored.units ++ us).map fun u => (u.name, u.origin)
  conv_rhs => rw [← map_fst_unitsNumbered c us]
  rw [allUnits, map_append, map_append, map_map, map_map]
  rfl

/-- **The request for a module asks for the late entries in their families.** -/
theorem requestOf_late (h : LateEntries c us ss) (module source : String)
    (references : List String) :
    Loader.requestOf module source references (c.lateResolved us ss) =
      ⟨module, source, references, c.lateUnits module us, c.lateScales module us ss⟩ := by
  have hunits : ((c.lateResolved us ss).units.drop c.restored.units.length).filterMap
      (·.describe? module) = c.lateUnits module us := by
    have hmap : (c.lateResolved us ss).units.map (·.describe? module) =
        (c.allUnits us).map (·.describe? module) := map_describe?_units_connected module
    rw [filterMap_drop_congr hmap, allUnits, drop_left]
    exact UnitEntry.filterMap_describe? (fun u hu => (h.units u hu).1) _ module
  have hscales : ((c.lateResolved us ss).scales.drop c.restored.scales.length).filterMap
      (·.describe? (c.lateResolved us ss) module) = c.lateScales module us ss := by
    have hmap : (c.lateResolved us ss).scales.map (·.describe? (c.lateResolved us ss) module) =
        (c.allScales us ss).map (·.describe? (c.lateResolved us ss) module) :=
      map_describe?_scales_connected _ module
    rw [filterMap_drop_congr hmap, allScales, drop_left, filterMap_map]
    refine filterMap_congr fun p _ => ?_
    exact describe?_congr (map_label_lateResolved c us ss) module _
  rw [← hunits, ← hscales]
  rfl

end Quantity.Catalog
