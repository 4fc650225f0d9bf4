import Quantity.Proofs.Expr.Json
import Quantity.View.Json

/-!
# JSON forms of views are read back

The form of each part of a view is read as the part again, with its numerals as they are read back
(`Numeral.plain`). What is left out, the externals of a view that has none and the module of an
operand that has none, is read as nothing.
-/

namespace Quantity

open Quantity.Text Quantity.Text.Json List

theorem FamilyId.isForm_toJson (f : FamilyId) : IsForm ofJson? f.toJson f := by
  have h := isForm_uint32 f
  refine ⟨h.regular, ?_⟩
  rw [ofJson?, toJson, h.read, Option.map_some, UInt32.ofNat_toNat]

theorem isForm_orNull_family (o : Option FamilyId) :
    IsForm (nullable FamilyId.ofJson?) (orNull FamilyId.toJson o) o := by
  have h := isForm_orNull (g := id) rfl fun f (_ : f ∈ o) => FamilyId.isForm_toJson f
  rwa [Option.map_id] at h

theorem Operator.isForm_word (o : Operator) : IsForm ofJson? (.string o.word) o :=
  ⟨.string _, by cases o <;> rfl⟩

theorem OperandView.isForm_toJson (o : OperandView) : IsForm ofJson? o.toJson o := by
  obtain ⟨name, module, number⟩ := o
  have hname := isForm_string name
  have hnumber := isForm_bool number
  cases module with
  | none =>
    exact isForm_object (by decide : ["name", "number"].Nodup) rfl rfl <|
      hname.required rfl <| optional_missing rfl <| hnumber.required rfl <| reading_pure _
  | some m =>
    exact isForm_object (by decide : ["name", "module", "number"].Nodup) rfl rfl <|
      hname.required rfl <| (isForm_orNull_string (some m)).optional rfl <|
      hnumber.required rfl <| reading_pure _

theorem OperationView.isForm_toJson (o : OperationView) : IsForm ofJson? o.toJson o :=
  isForm_object (by decide : ["operator", "lhs", "rhs", "result"].Nodup) rfl rfl <|
    o.operator.isForm_word.required rfl <| o.lhs.isForm_toJson.required rfl <|
    o.rhs.isForm_toJson.required rfl <| o.result.isForm_toJson.required rfl <| reading_pure o

theorem isForm_operations (os : List OperationView) :
    IsForm (listOf? OperationView.ofJson?) (.array (os.map OperationView.toJson)) os := by
  have h := isForm_array (g := id) fun o (_ : o ∈ os) => OperationView.isForm_toJson o
  rwa [map_id] at h

/-! ### Units and scales -/

namespace UnitView

def numerals (u : UnitView) : List Numeral :=
  u.factor.value :: (u.relativeFactor.map (·.value)).toList

def mapNumerals (f : Numeral → Numeral) (u : UnitView) : UnitView :=
  { u with factor := u.factor.mapValue f, relativeFactor := u.relativeFactor.map (·.mapValue f) }

theorem mapNumerals_eq_self {u : UnitView} (h : ∀ n ∈ u.numerals, f n = n) :
    u.mapNumerals f = u := by
  obtain ⟨hfactor, hrelative⟩ := forall_mem_cons.mp h
  have hrelative : u.relativeFactor.map (·.mapValue f) = u.relativeFactor := by
    cases hvalue : u.relativeFactor with
    | none => rfl
    | some n =>
      rw [hvalue] at hrelative
      rw [Option.map_some, NumeralExpr.mapValue, hrelative n.value (mem_singleton_self _)]
  rw [mapNumerals, NumeralExpr.mapValue, hfactor, hrelative]

theorem isForm_toJson {u : UnitView} (h : ∀ n ∈ u.numerals, n.ReadsBack) :
    IsForm ofJson? u.toJson (u.mapNumerals Numeral.plain) := by
  obtain ⟨hfactor, hrelative⟩ := forall_mem_cons.mp h
  have hrelative : IsForm (nullable NumeralExpr.ofJson?)
      (orNull NumeralExpr.toJson u.relativeFactor)
      (u.relativeFactor.map (·.mapValue Numeral.plain)) := by
    refine isForm_orNull rfl fun n hn => NumeralExpr.isForm_toJson (hrelative _ ?_)
    rw [hn]
    exact mem_singleton_self _
  exact isForm_object (by decide : fieldNames.Nodup) rfl rfl <|
    (isForm_string u.name).required rfl <| (isForm_orNull_string u.module).optional rfl <|
    u.kind.isForm_toJson.required rfl <| (isForm_string u.numericType).required rfl <|
    (isForm_string u.one).required rfl <| (isForm_string u.zero).required rfl <|
    u.dimension.isForm_toJson.required rfl <| (NumeralExpr.isForm_toJson hfactor).required rfl <|
    hrelative.optional rfl <| (isForm_string u.format).required rfl <|
    (isForm_strings u.tags).required rfl <| (isForm_orNull_family u.family).optional rfl <|
    (isForm_orNull_string u.prime).optional rfl <| (isForm_strings u.relatives).required rfl <|
    (isForm_operations u.operations).required rfl <| (isForm_bool u.valid).required rfl <|
    reading_pure _

end UnitView

namespace ScaleView

def mapNumerals (f : Numeral → Numeral) (s : ScaleView) : ScaleView :=
  { s with offset := s.offset.mapValue f }

theorem isForm_toJson {s : ScaleView} (h : s.offset.value.ReadsBack) :
    IsForm ofJson? s.toJson (s.mapNumerals Numeral.plain) :=
  isForm_object (by decide : fieldNames.Nodup) rfl rfl <|
    (isForm_string s.name).required rfl <| (isForm_orNull_string s.module).optional rfl <|
    (isForm_orNull_string s.unit).optional rfl <| (NumeralExpr.isForm_toJson h).required rfl <|
    (isForm_string s.refPoint).required rfl <| (isForm_bool s.refPointImplicit).required rfl <|
    (isForm_string s.format).required rfl <| (isForm_orNull_family s.family).optional rfl <|
    (isForm_orNull_string s.prime).optional rfl <| (isForm_strings s.relatives).required rfl <|
    (isForm_bool s.valid).required rfl <| reading_pure _

end ScaleView

/-! ### Views -/

namespace View

def numerals (v : View) : List Numeral :=
  v.units.flatMap UnitView.numerals ++ v.externals.flatMap UnitView.numerals ++
    v.scales.map (·.offset.value)

def mapNumerals (f : Numeral → Numeral) (v : View) : View :=
  { v with
    units := v.units.map (·.mapNumerals f)
    externals := v.externals.map (·.mapNumerals f)
    scales := v.scales.map (·.mapNumerals f) }

theorem mapNumerals_eq_self {v : View} (h : ∀ n ∈ v.numerals, f n = n) : v.mapNumerals f = v := by
  simp only [numerals, forall_mem_append, forall_mem_flatMap, forall_mem_map] at h
  obtain ⟨⟨hunits, hexternals⟩, hscales⟩ := h
  have hunits : v.units.map (·.mapNumerals f) = v.units :=
    (map_congr_left fun u hu => UnitView.mapNumerals_eq_self (hunits u hu)).trans
      (map_id' _)
  have hexternals : v.externals.map (·.mapNumerals f) = v.externals :=
    (map_congr_left fun u hu => UnitView.mapNumerals_eq_self (hexternals u hu)).trans
      (map_id' _)
  have hscales : v.scales.map (·.mapNumerals f) = v.scales := by
    refine (map_congr_left fun s hs => ?_).trans (map_id' _)
    rw [ScaleView.mapNumerals, NumeralExpr.mapValue, hscales s hs]
  rw [mapNumerals, hunits, hexternals, hscales]

/-- **The form of a view is read back**, whatever it shows. -/
theorem isForm_toJson {v : View} (h : ∀ n ∈ v.numerals, n.ReadsBack) :
    IsForm ofJson? v.toJson (v.mapNumerals Numeral.plain) := by
  simp only [numerals, forall_mem_append, forall_mem_flatMap, forall_mem_map] at h
  obtain ⟨⟨hunits, hexternals⟩, hscales⟩ := h
  have hunits := isForm_array fun u hu => UnitView.isForm_toJson (hunits u hu)
  have hexternals := isForm_array fun u hu => UnitView.isForm_toJson (hexternals u hu)
  have hscales := isForm_array fun s hs => ScaleView.isForm_toJson (hscales s hs)
  have hoperations := isForm_operations v.operations
  unfold toJson
  split
  case isTrue hempty =>
    obtain ⟨units, externals, scales, operations⟩ := v
    obtain rfl : externals = [] := isEmpty_iff.mp hempty
    exact isForm_object (by decide : ["units", "scales", "operations"].Nodup) rfl rfl <|
      hunits.required rfl <| withDefault_missing rfl <| hscales.required rfl <|
      hoperations.required rfl <| reading_pure _
  case isFalse =>
    exact isForm_object (by decide : ["units", "externals", "scales", "operations"].Nodup) rfl rfl <|
      hunits.required rfl <| hexternals.withDefault rfl <| hscales.required rfl <|
      hoperations.required rfl <| reading_pure _

/-- **A view is read back from its text.** -/
theorem read?_write {v : View} (h : ∀ n ∈ v.numerals, n.ReadsBack) (hsp : sp.IsBlank) :
    read? (v.write sp) = some (v.mapNumerals Numeral.plain) := by
  have hread := (isForm_toJson h).read?_write hsp
  rwa [read?]

end View

end Quantity
