import Quantity.Proofs.Source.Complete
import Quantity.Proofs.View.Closed

/-!
# Where operations are implemented

An operation of a view belongs in the file of its left unit if that one is shown, otherwise in the
file of its right one, and among the free functions if neither is shown. The generator decides this
by names, once for each unit and once for the free functions. `Viewed.implemented_once` says that
both agree with the model, so that no operation is left out and none is implemented twice.
-/

namespace Quantity

open List

/-- **Sorting into buckets loses nothing and doubles nothing.** -/
theorem perm_buckets [DecidableEq β] {f : α → β} {keys : List β} (hkeys : keys.Nodup)
    (h : ∀ x ∈ xs, f x ∈ keys) : (keys.flatMap fun k => xs.filter fun x => f x = k).Perm xs := by
  induction keys generalizing xs with
  | nil =>
    rw [eq_nil_iff_forall_not_mem.mpr fun x hx => not_mem_nil (h x hx)]
    exact .nil
  | cons k ks ih =>
    obtain ⟨hfirst, hkeys⟩ := nodup_cons.mp hkeys
    -- what is not in the first bucket is sorted into the others
    have hrest : (ks.flatMap fun k' => xs.filter fun x => f x = k').Perm
        (xs.filter fun x => !decide (f x = k)) := by
      refine .trans (.of_eq (flatMap_congr fun k' hk' => ?_)) (ih hkeys fun x hx => ?_)
      · rw [filter_filter]
        refine filter_congr fun x _ => ?_
        by_cases hx : f x = k'
        · have hne : k' ≠ k := fun heq => hfirst (heq ▸ hk')
          simp [hx, hne]
        · simp [hx]
      · obtain ⟨hx, hne⟩ := mem_filter.mp hx
        exact (mem_cons.mp (h x hx)).resolve_left (by simpa using hne)
    exact (hrest.append_left _).trans (filter_append_perm _ xs)

/-! ### Hosts -/

namespace Selection

/-- The place of an operand that is a chosen unit. -/
def place? (s : Selection) : Operand → Option Nat
  | .unit i => if s.unit i then some i else none
  | .number _ => none

/-- The chosen unit in whose file an operation belongs: the left one, or else the right one. -/
def host? (s : Selection) (o : Operation) : Option Nat := (s.place? o.lhs).or (s.place? o.rhs)

theorem place?_eq_some_iff {s : Selection} :
    s.place? x = some i ↔ x = .unit i ∧ s.unit i = true := by
  cases x with
  | number k => exact iff_of_false nofun nofun
  | unit j =>
    cases hj : s.unit j <;> simp [place?, hj]
    · rintro rfl
      exact hj
    · rintro rfl
      exact hj

theorem host?_eq_some {s : Selection} (h : s.host? o = some i) :
    s.unit i = true ∧ (o.lhs = .unit i ∨ o.rhs = .unit i) := by
  rcases Option.or_eq_some_iff.mp h with h | ⟨-, h⟩
  · obtain ⟨hlhs, hi⟩ := place?_eq_some_iff.mp h
    exact ⟨hi, .inl hlhs⟩
  · obtain ⟨hrhs, hi⟩ := place?_eq_some_iff.mp h
    exact ⟨hi, .inr hrhs⟩

theorem host?_eq_none_iff {s : Selection} :
    s.host? o = none ↔ ∀ i, s.unit i = true → o.lhs ≠ .unit i ∧ o.rhs ≠ .unit i := by
  have hplace (x : Operand) : s.place? x = none ↔ ∀ i, s.unit i = true → x ≠ .unit i := by
    rw [Option.eq_none_iff_forall_ne_some]
    refine forall_congr' fun i => ?_
    rw [Ne, place?_eq_some_iff, not_and']
  rw [host?, Option.or_eq_none_iff, hplace, hplace]
  constructor
  · exact fun h i hi => ⟨h.1 i hi, h.2 i hi⟩
  · exact fun h => ⟨fun i hi => (h i hi).1, fun i hi => (h i hi).2⟩

end Selection

namespace Model

open Source

variable {m : Model} {s : Selection} {i : Nat} {u : UnitEntry} {o : Operation} {x : Operand}

/-- The operations that belong in the file of a unit, or with none in no such file. -/
def hostedBy (m : Model) (s : Selection) (host : Option Nat) : List Operation :=
  (m.chosenOperations s).filter fun o => s.host? o = host

section Viewed

variable (h : Viewed m s)
include h

theorem Viewed.valid (hu : m.units[i]? = some u) (hi : s.unit i = true) : u.valid = true := by
  cases h with
  | full hc hok => exact ((enlarged_of_extend hc hok).late i u (Nat.zero_le _) hu).1
  | late _ hc hok =>
    have henlarged := enlarged_of_extend hc hok
    exact (henlarged.late i u ((late_unit_iff henlarged).mp hi) hu).1

theorem Viewed.exists_unit (ho : o ∈ m.chosenOperations s) (hi : .unit i ∈ o.operands) :
    ∃ u, m.units[i]? = some u := by
  obtain ⟨ho, hs⟩ := mem_filter.mp ho
  obtain ⟨j, hj, hs⟩ := Selection.operation_iff.mp hs
  exact ⟨_, getElem?_eq_getElem (h.legible.refers i (.operand ho hj hs hi))⟩

/-- A file is generated for just the operands that are chosen units. -/
theorem Viewed.isGenerated_viewOperand (ho : o ∈ m.chosenOperations s) (hx : x ∈ o.operands) :
    isGenerated (m.view s) (m.viewOperand s x) = (s.place? x).isSome := by
  cases x with
  | number k => rfl
  | unit i =>
    obtain ⟨u, hu⟩ := h.exists_unit ho hx
    cases hs : s.unit i with
    | true =>
      have hmodule : (m.viewOperand s (.unit i)).module = none := by rw [viewOperand, hs]; rfl
      rw [isGenerated, hmodule, h.legible.operandUnit? hu (.inl hs), Selection.place?, if_pos hs]
      exact h.valid hu hs
    | false =>
      obtain ⟨module, hmodule⟩ := h.legible.owned i u hu hs
      have hmodule : (m.viewOperand s (.unit i)).module = some module := by
        rw [viewOperand, hs, hu, ← hmodule]
        rfl
      rw [isGenerated, hmodule, Selection.place?, hs]
      rfl

/-- **The host of an operation is known by its name.** -/
theorem Viewed.host?_viewOperation (ho : o ∈ m.chosenOperations s) :
    Source.host? (m.view s) (m.viewOperation s o) = (s.host? o).bind m.unitName? := by
  have hname (x : Operand) (hx : x ∈ o.operands) (i : Nat) (hi : s.place? x = some i) :
      m.unitName? i = some (m.viewOperand s x).name := by
    obtain ⟨rfl, -⟩ := Selection.place?_eq_some_iff.mp hi
    obtain ⟨u, hu⟩ := h.exists_unit ho hx
    rw [viewOperand, unitName?, hu]
    rfl
  have hlhs : o.lhs ∈ o.operands := mem_cons_self
  have hrhs : o.rhs ∈ o.operands := mem_cons_of_mem _ mem_cons_self
  have hgenerated := h.isGenerated_viewOperand ho hlhs
  have hgenerated' := h.isGenerated_viewOperand ho hrhs
  rw [Source.host?, OperationView.sides, viewOperation, Selection.host?]
  cases hleft : s.place? o.lhs with
  | some i =>
    rw [hleft] at hgenerated
    rw [find?_cons_of_pos hgenerated, Option.some_or, Option.bind_some, hname _ hlhs i hleft]
    rfl
  | none =>
    rw [hleft] at hgenerated
    rw [find?_cons_of_neg (Bool.eq_false_iff.mp hgenerated), Option.none_or]
    cases hright : s.place? o.rhs with
    | some i =>
      rw [hright] at hgenerated'
      rw [find?_cons_of_pos hgenerated', Option.bind_some, hname _ hrhs i hright]
      rfl
    | none =>
      rw [hright] at hgenerated'
      rw [find?_cons_of_neg (Bool.eq_false_iff.mp hgenerated')]
      rfl

theorem Viewed.exists_unit_of_host? (ho : o ∈ m.chosenOperations s) (hi : s.host? o = some i) :
    ∃ u, m.units[i]? = some u := by
  rcases (Selection.host?_eq_some hi).2 with hx | hx
  · exact h.exists_unit ho (hx ▸ mem_cons_self)
  · exact h.exists_unit ho (hx ▸ mem_cons_of_mem _ mem_cons_self)

theorem Viewed.hostedOperations_viewUnit (hu : m.units[i]? = some u) (hi : s.unit i = true) :
    hostedOperations (m.view s) (m.viewUnit s i u) =
      (m.hostedBy s (some i)).map (m.viewOperation s) := by
  refine filter_map.trans (congrArg _ (filter_congr fun o ho => ?_))
  refine decide_eq_decide.mpr ?_
  rw [h.host?_viewOperation ho]
  constructor
  · intro hname
    obtain ⟨j, hj, hname⟩ := Option.bind_eq_some_iff.mp hname
    obtain ⟨w, hw⟩ := h.exists_unit_of_host? ho hj
    rw [unitName?, hw] at hname
    rw [hj, h.legible.shown i j u w hu hw hi (Selection.host?_eq_some hj).1
      (Option.some.inj hname).symm]
  · intro hhost
    rw [hhost, Option.bind_some, unitName?, hu]
    rfl

theorem Viewed.freeOperations_view :
    freeOperations (m.view s) = (m.hostedBy s none).map (m.viewOperation s) := by
  refine filter_map.trans (congrArg _ (filter_congr fun o ho => ?_))
  refine Eq.trans (congrArg Option.isNone (h.host?_viewOperation ho)) ?_
  cases hhost : s.host? o with
  | none => rfl
  | some i =>
    obtain ⟨u, hu⟩ := h.exists_unit_of_host? ho hhost
    rw [Option.bind_some, unitName?, hu]
    rfl

theorem Viewed.perm_hostedBy :
    ((m.chosenPlaces s.unit).flatMap (fun i => m.hostedBy s (some i)) ++ m.hostedBy s none).Perm
      (m.chosenOperations s) := by
  have hkeys : ((m.chosenPlaces s.unit).map some ++ [none]).Nodup := by
    have hplaces : (m.chosenPlaces s.unit).Nodup :=
      (m.pairwise_chosenPlaces s.unit).imp Nat.ne_of_lt
    refine nodup_append.mpr ⟨hplaces.map (Option.some_injective _), nodup_singleton _, ?_⟩
    rintro _ hi _ hnone rfl
    obtain ⟨i, -, rfl⟩ := mem_map.mp hi
    cases mem_singleton.mp hnone
  have hhosts (o : Operation) (ho : o ∈ m.chosenOperations s) :
      s.host? o ∈ (m.chosenPlaces s.unit).map some ++ [none] := by
    cases hhost : s.host? o with
    | none => exact mem_append_right _ (mem_singleton.mpr rfl)
    | some i =>
      obtain ⟨u, hu⟩ := h.exists_unit_of_host? ho hhost
      refine mem_append_left _ (mem_map_of_mem (mem_chosenPlaces.mpr ⟨?_, ?_⟩))
      · exact lt_of_getElem? hu
      · exact (Selection.host?_eq_some hhost).1
  have hperm := perm_buckets hkeys hhosts
  rw [flatMap_append, flatMap_map, flatMap_singleton] at hperm
  exact hperm

/-- **Each operation is implemented once.** The file of a shown unit ends with just the operations
that it hosts, the file of free functions with those that no shown unit hosts, and all of them
together are the operations of the view. A host is one of the two sides, and there is none only if neither
side is shown. The file of free functions is there if there are such operations, and otherwise only
as the file of an entry with its name. -/
theorem Viewed.implemented_once {c : Config} {b : Bundle} (hb : generate c (m.view s) = .ok b)
    (hmod : "mod" ∉ (entryNames (m.view s)).map moduleName) :
    b.IsComplete c (m.view s) ∧
      (∀ i u, m.units[i]? = some u → s.unit i = true → ∃ source,
        b.files.get? (fileName (moduleName u.name)) = some (text (source.lines c)) ∧
          source.lines c = UnitSource.lines c ⟨source.unit, source.family, [], []⟩ ++
            source.conversions.flatMap (fun x => apart x.lines) ++
              source.operations.flatMap (fun x => apart x.lines) ∧
          unitSource (m.view s) (m.viewUnit s i u) = .ok source ∧
          List.Forall₂ (fun o impl => operationImpl (m.view s) (m.viewOperation s o) = .ok impl)
            (m.hostedBy s (some i)) source.operations) ∧
      (m.hostedBy s none ≠ [] → ∃ functions,
        b.files.get? "operations.rs" = some (text (operationsFile c functions)) ∧
          operationsFile c functions =
            operationsFile c [] ++ functions.flatMap (fun f => apart (f.lines c)) ∧
          List.Forall₂ (fun o f => freeFunction (m.view s) (m.viewOperation s o) = .ok f)
            (m.hostedBy s none) functions) ∧
      ((m.chosenPlaces s.unit).flatMap (fun i => m.hostedBy s (some i)) ++ m.hostedBy s none).Perm
        (m.chosenOperations s) ∧
      (∀ o i, s.host? o = some i → s.unit i = true ∧ (o.lhs = .unit i ∨ o.rhs = .unit i)) ∧
      (∀ o, s.host? o = none ↔ ∀ i, s.unit i = true → o.lhs ≠ .unit i ∧ o.rhs ≠ .unit i) ∧
      ("operations.rs" ∈ b.files.names ↔
        m.hostedBy s none ≠ [] ∨ "operations" ∈ (entryNames (m.view s)).map moduleName) := by
  have hcomplete : b.IsComplete c (m.view s) := isComplete_of_generate hb hmod
  have hfree : freeOperations (m.view s) = [] ↔ m.hostedBy s none = [] := by
    rw [h.freeOperations_view, map_eq_nil_iff]
  refine ⟨hcomplete, fun i u hu hi => ?_, fun hsome => ?_, h.perm_hostedBy,
    fun _ _ => Selection.host?_eq_some, fun _ => Selection.host?_eq_none_iff, ?_⟩
  · have hmem : m.viewUnit s i u ∈ (m.view s).units := mem_viewUnits.mpr ⟨i, hi, u, hu, rfl⟩
    obtain ⟨source, hsource, hfile⟩ := hcomplete.units _ hmem (h.valid hu hi) trivial
    obtain ⟨family, operations, -, himpls, rfl⟩ := unitSource_eq_ok_iff.mp hsource
    rw [h.hostedOperations_viewUnit hu hi, forall₂_map_left_iff] at himpls
    exact ⟨_, hfile, UnitSource.lines_eq c _, hsource, himpls⟩
  · obtain ⟨functions, hfunctions, hfile⟩ := hcomplete.operations (mt hfree.mp hsome)
    rw [h.freeOperations_view, forall₂_map_left_iff] at hfunctions
    refine ⟨functions, hfile, ?_, hfunctions⟩
    rw [operationsFile, operationsFile, flatMap_nil, append_nil]
  · rw [hcomplete.names.mem_iff, operations_mem_names_iff, Ne, hfree]

end Viewed

/-- A late volume, whose products are between loaded units. -/
def volumes : String := "unit Volume \"v\" = SquareMeter * Meter;"

/-- Of the four operations with volumes, two are implemented in the file of the volume, and the two
that lead to it are free functions. -/
theorem Viewed.implemented_once_volumes :
    ∃ c d b, compile areas { kind := .decimal } = .ok c ∧ (c.model.settle "si").IsLoaded ∧
      (c.model.settle "si").extend volumes { kind := .decimal } = .ok d ∧ d.isSuccess = true ∧
      generate {} (d.model.view (.late d.model)) = .ok b ∧
      "mod" ∉ (entryNames (d.model.view (.late d.model))).map moduleName ∧
      (d.model.hostedBy (.late d.model) (some 2)).length = 2 ∧
      (d.model.hostedBy (.late d.model) none).length = 2 ∧
      ((d.model.chosenPlaces (Selection.late d.model).unit).flatMap
          (fun i => d.model.hostedBy (.late d.model) (some i))
        ++ d.model.hostedBy (.late d.model) none).Perm
          (d.model.chosenOperations (.late d.model)) ∧
      "operations.rs" ∈ b.files.names := by
  obtain ⟨c, hc, d, hd, b, hb, hcok, hdok, hmod, hhosted, hfree⟩ :
      ∃ c, compile areas { kind := .decimal } = .ok c ∧
        ∃ d, (c.model.settle "si").extend volumes { kind := .decimal } = .ok d ∧
        ∃ b, generate {} (d.model.view (.late d.model)) = .ok b ∧ c.isSuccess = true ∧
          d.isSuccess = true ∧ "mod" ∉ (entryNames (d.model.view (.late d.model))).map moduleName ∧
          (d.model.hostedBy (.late d.model) (some 2)).length = 2 ∧
          (d.model.hostedBy (.late d.model) none).length = 2 := by
    decide +kernel
  have hloaded := (enlarged_of_extend hc hcok).isLoaded_settle "si"
  obtain ⟨-, -, -, hperm, -, -, hfile⟩ := (Viewed.late hloaded hd hdok).implemented_once hb hmod
  have hsome : d.model.hostedBy (.late d.model) none ≠ [] := fun hnil => by
    rw [hnil] at hfree
    cases hfree
  exact ⟨c, d, b, hc, hloaded, hd, hdok, hb, hmod, hhosted, hfree, hperm, hfile.mpr (.inl hsome)⟩

/-- A unit with the name of the file of free functions. -/
def operationUnit : String := "unit Operations \"op\" = <Length>;"

/-- That file is there, though there is no operation at all. -/
theorem generate_operationUnit :
    ∃ d b, compile operationUnit { kind := .decimal } = .ok d ∧ d.isSuccess = true ∧
      generate {} d.model.fullView = .ok b ∧ d.model.operations = [] ∧
      "operations.rs" ∈ b.files.names := by
  simp only [exists_and_left]
  decide +kernel

end Model

end Quantity
