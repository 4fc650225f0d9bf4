import Quantity.Catalog.Json
import Quantity.Proofs.View.Json

/-!
# JSON forms of descriptors and artifacts are read back

With them every text that is written by way of JSON is read back: views, and the manifests of stored
modules (`texts_read_back`).
-/

namespace Quantity

open Quantity.Text Quantity.Text.Json List

namespace UnitDescriptor

def mapFactor (f : Numeral → Numeral) (u : UnitDescriptor) : UnitDescriptor :=
  { u with factor := f u.factor }

theorem isForm_toJson {u : UnitDescriptor} (h : u.factor.ReadsBack) :
    IsForm ofJson? u.toJson (u.mapFactor Numeral.plain) :=
  isForm_object (by decide : fieldNames.Nodup) rfl rfl <|
    (isForm_string u.name).required rfl <| (isForm_string u.module).required rfl <|
    u.kind.isForm_toJson.required rfl <| u.dimension.isForm_toJson.required rfl <|
    (Numeral.isForm_toJson h).required rfl <| (isForm_bool u.constant).withDefault rfl <|
    (isForm_string u.format).required rfl <| (isForm_strings u.tags).required rfl <|
    (FamilyId.isForm_toJson u.family).required rfl <| reading_pure _

end UnitDescriptor

namespace ScaleDescriptor

def mapOffset (f : Numeral → Numeral) (s : ScaleDescriptor) : ScaleDescriptor :=
  { s with offset := f s.offset }

theorem isForm_toJson {s : ScaleDescriptor} (h : s.offset.ReadsBack) :
    IsForm ofJson? s.toJson (s.mapOffset Numeral.plain) :=
  isForm_object (by decide : fieldNames.Nodup) rfl rfl <|
    (isForm_string s.name).required rfl <| (isForm_string s.module).required rfl <|
    (isForm_string s.unit).required rfl <| (isForm_string s.unitModule).required rfl <|
    (Numeral.isForm_toJson h).required rfl <| (isForm_orNull_string s.refPoint).optional rfl <|
    (isForm_string s.format).required rfl <| (FamilyId.isForm_toJson s.family).required rfl <|
    reading_pure _

end ScaleDescriptor

namespace Artifact

def numerals (a : Artifact) : List Numeral :=
  a.units.map (·.factor) ++ a.scales.map (·.offset)

def mapNumerals (f : Numeral → Numeral) (a : Artifact) : Artifact :=
  { a with
    units := a.units.map (·.mapFactor f)
    scales := a.scales.map (·.mapOffset f) }

theorem mapNumerals_eq_self {a : Artifact} (h : ∀ n ∈ a.numerals, f n = n) :
    a.mapNumerals f = a := by
  simp only [numerals, forall_mem_append, forall_mem_map] at h
  obtain ⟨hunits, hscales⟩ := h
  have hunits : a.units.map (·.mapFactor f) = a.units := by
    refine (map_congr_left fun u hu => ?_).trans (map_id' _)
    rw [UnitDescriptor.mapFactor, hunits u hu]
  have hscales : a.scales.map (·.mapOffset f) = a.scales := by
    refine (map_congr_left fun s hs => ?_).trans (map_id' _)
    rw [ScaleDescriptor.mapOffset, hscales s hs]
  rw [mapNumerals, hunits, hscales]

/-- **The form of an artifact is read back.** -/
theorem isForm_toJson {a : Artifact} (h : ∀ n ∈ a.numerals, n.ReadsBack) :
    IsForm ofJson? a.toJson (a.mapNumerals Numeral.plain) := by
  simp only [numerals, forall_mem_append, forall_mem_map] at h
  obtain ⟨hunits, hscales⟩ := h
  have hunits := isForm_array fun u hu => UnitDescriptor.isForm_toJson (hunits u hu)
  have hscales := isForm_array fun s hs => ScaleDescriptor.isForm_toJson (hscales s hs)
  exact isForm_object (by decide : fieldNames.Nodup) rfl rfl <|
    (isForm_string a.module).required rfl <| (isForm_string a.source).required rfl <|
    (isForm_strings a.references).withDefault rfl <| hunits.required rfl <| hscales.required rfl <|
    reading_pure _

/-- **An artifact is read back from its text.** -/
theorem read?_write {a : Artifact} (h : ∀ n ∈ a.numerals, n.ReadsBack) (hsp : sp.IsBlank) :
    read? (a.toJson.write sp) = some (a.mapNumerals Numeral.plain) := by
  have hread := (isForm_toJson h).read?_write hsp
  rwa [read?]

end Artifact

/-- **Views and artifacts are read back from their texts**, whether compact or indented. What is read
has the same values as what was written: only the sign of a decimal zero is lost, and without one to
lose, the two are equal. -/
theorem texts_read_back {sp : Spacing} (hsp : sp = .compact ∨ sp = .indented) :
    (∀ v : View, (∀ n ∈ v.numerals, n.ReadsBack) →
      View.read? (v.write sp) = some (v.mapNumerals Numeral.plain) ∧
        ((∀ n ∈ v.numerals, n.plain = n) → View.read? (v.write sp) = some v)) ∧
    (∀ a : Artifact, (∀ n ∈ a.numerals, n.ReadsBack) →
      Artifact.read? (a.toJson.write sp) = some (a.mapNumerals Numeral.plain) ∧
        ((∀ n ∈ a.numerals, n.plain = n) → Artifact.read? (a.toJson.write sp) = some a)) ∧
    ∀ n : Numeral, n.plain.SameValue n := by
  have hblank : sp.IsBlank := by
    rcases hsp with rfl | rfl
    · exact isBlank_compact
    · exact isBlank_indented
  refine ⟨?_, ?_, Numeral.sameValue_plain⟩
  · intro v hv
    have hread := View.read?_write hv hblank
    refine ⟨hread, fun hplain => ?_⟩
    rw [hread, View.mapNumerals_eq_self hplain]
  · intro a ha
    have hread := Artifact.read?_write ha hblank
    refine ⟨hread, fun hplain => ?_⟩
    rw [hread, Artifact.mapNumerals_eq_self hplain]

/-- A unit with a double-precision factor, quotes and a line break in its texts. -/
def knotView : UnitView where
  name := "Knot"
  module := some "late_\"sea\""
  kind := .double
  numericType := "f64"
  one := "1.0"
  zero := "0.0"
  dimension := ⟨{ length := 1, time := -1 }, "Metre::DIMENSION / Second::DIMENSION"⟩
  factor := ⟨true, .double 0.5144444444444445, "1852.0 / 3600.0"⟩
  relativeFactor := none
  format := "%f kn\n"
  tags := ["kn", "уз"]
  family := some 4294967295
  prime := none
  relatives := []
  operations := []
  valid := true

/-- A unit with decimal numerals that is not shown itself. -/
def fathomView : UnitView :=
  let factor : NumeralExpr := ⟨false, .decimal ⟨false, 18288, 4, by decide, by decide⟩, "1.8288"⟩
  { knotView with
    name := "Fathom"
    kind := .decimal
    factor
    relativeFactor := some factor
    prime := some "Metre" }

/-- A view with an external unit, operands of all sorts and a scale whose offset is a negative
zero. -/
def seaView : View where
  units := [knotView]
  externals := [fathomView]
  scales :=
    [{ name := "Depth", module := none, unit := none
       offset :=
        ⟨true, .decimal { Number.Decimal.zero.neg with places := 1, places_le := by decide }, "-0.0"⟩
       refPoint := "\t\\", refPointImplicit := false, format := "", family := none, prime := none
       relatives := ["Height"], valid := false }]
  operations :=
    [⟨.quotient, ⟨"Fathom", some "late_length", false⟩, ⟨"f64", none, true⟩,
      ⟨"Fathom", none, false⟩⟩]

def seaArtifact : Artifact where
  module := "late_sea"
  source := "unit Knot(f64) {}\n"
  units :=
    [{ name := "Knot", module := "late_sea", kind := .double
       dimension := { length := 1, time := -1 }
       factor := .double 0.5144444444444445, format := "", tags := ["kn"], family := 7 }]
  scales :=
    [{ name := "Log", module := "late_sea", unit := "Knot", unitModule := "late_sea"
       offset := .double (-0.0), refPoint := none, format := "", family := 7 }]

theorem texts_read_back_sea :
    (∀ n ∈ seaView.numerals, n.ReadsBack) ∧
      View.read? (seaView.write .compact) = some (seaView.mapNumerals Numeral.plain) ∧
      seaView.mapNumerals Numeral.plain ≠ seaView ∧
    (∀ n ∈ seaArtifact.numerals, n.ReadsBack) ∧
      Artifact.read? seaArtifact.write = some seaArtifact := by
  have hview : ∀ n ∈ seaView.numerals, n.ReadsBack := by decide +kernel
  have hartifact : ∀ n ∈ seaArtifact.numerals, n.ReadsBack := by decide +kernel
  refine ⟨hview, ((texts_read_back (.inl rfl)).1 seaView hview).1, by decide +kernel, hartifact, ?_⟩
  exact ((texts_read_back (.inr rfl)).2.1 seaArtifact hartifact).2 (by decide +kernel)

end Quantity
