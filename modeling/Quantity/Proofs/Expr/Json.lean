import Quantity.Expr.Json
import Quantity.Proofs.Dimension
import Quantity.Proofs.Text.Forms

/-!
# JSON forms of dimensions and numerals are read back

A decimal is read back from its text; only the sign of a zero is lost (`Numeral.plain`), which makes
no difference to its value (`Numeral.sameValue_plain`). The digits of a binary number are rounded
when they are read, so for them it is a condition that they lead back to the number
(`Numeral.ReadsBack`).
-/

namespace Quantity

open Quantity.Text Quantity.Text.Json List
open Number (Binary Layout Decimal)

namespace Dimension

theorem ofList?_exponents (d : Dimension) : ofList? d.exponents = some d := by
  have hlength : d.exponents.length = Magnitude.all.length := length_map ..
  have hrange : d.exponents.all (fun e => decide (InRange e)) = true := by
    rw [exponents, all_map]
    exact all_eq_true.mpr fun m _ => decide_eq_true (inRange_toInt _)
  rw [ofList?, hrange]
  refine congrArg some (ext_get fun m => ?_)
  cases m <;> exact Int8.ofInt_toInt _

theorem isForm_toJson (d : Dimension) : IsForm ofJson? d.toJson d := by
  have h := isForm_array (g := id) fun e (_ : e ∈ d.exponents) => isForm_int e
  refine ⟨h.regular, ?_⟩
  show (listOf? toInt? d.toJson).bind ofList? = _
  rw [toJson, h.read, Option.bind_some, map_id, ofList?_exponents]

end Dimension

theorem NumericKind.isForm_toJson (k : NumericKind) : IsForm ofJson? k.toJson k :=
  ⟨.string _, by cases k <;> rfl⟩

namespace Numeral

/-- The numeral without the sign of a decimal zero. -/
def plain : Numeral → Numeral
  | decimal d => .decimal d.plain
  | n => n

/-- Two numerals of one kind and of the same value. -/
def SameValue : Numeral → Numeral → Prop
  | double a, double b => a = b
  | float a, float b => a = b
  | decimal a, decimal b => a.sameValue b = true
  | _, _ => False

theorem sameValue_plain (n : Numeral) : n.plain.SameValue n := by
  cases n with
  | double v => rfl
  | float v => rfl
  | decimal d => exact d.sameValue_plain

/-- The numeral is finite, and if it is a binary number, the digits that are written for it are
read as the number again. -/
def ReadsBack : Numeral → Prop
  | double v =>
    v.isFinite = true ∧
      Json.toFloat? (.number (Layout.jsonDouble.write (Binary.ofFloat v))) = some v
  | float v =>
    v.isFinite = true ∧
      readFloat32? (.number (Layout.jsonFloat.write (Binary.ofFloat32 v))) = some v
  | decimal _ => True

instance : DecidablePred ReadsBack
  | double _ => inferInstanceAs (Decidable (_ ∧ _))
  | float _ => inferInstanceAs (Decidable (_ ∧ _))
  | decimal _ => inferInstanceAs (Decidable True)

variable {n : Numeral}

theorem isForm_valueJson (h : n.ReadsBack) :
    IsForm (ofValueJson? · n.kind) n.valueJson n.plain := by
  cases n with
  | double v =>
    obtain ⟨hfinite, hread⟩ := h
    rw [valueJson, if_pos (show (double v).isFinite = true from hfinite)]
    refine ⟨.number (Layout.isNumber_write _ (Binary.isFinite_ofFloat hfinite)), ?_⟩
    show (Json.toFloat? _).map double = _
    rw [hread]
    rfl
  | float v =>
    obtain ⟨hfinite, hread⟩ := h
    rw [valueJson, if_pos (show (float v).isFinite = true from hfinite)]
    refine ⟨.number (Layout.isNumber_write _ (Binary.isFinite_ofFloat32 hfinite)), ?_⟩
    show (readFloat32? _).map float = _
    rw [hread]
    rfl
  | decimal d =>
    refine ⟨.string d.toText, ?_⟩
    show ((Decimal.read? d.toText.toList).or _).map decimal = _
    rw [Decimal.read?_toText]
    rfl

theorem isForm_toJson (h : n.ReadsBack) : IsForm ofJson? n.toJson n.plain := by
  have hvalue := isForm_valueJson h
  refine isForm_object (by decide : ["kind", "value"].Nodup) rfl rfl ?_
  refine n.kind.isForm_toJson.required rfl ⟨?_, hvalue.required?_eq rfl⟩
  exact forall_mem_singleton.mpr hvalue.regular

end Numeral

theorem DimensionExpr.isForm_toJson (d : DimensionExpr) : IsForm ofJson? d.toJson d :=
  isForm_object (by decide : ["value", "code"].Nodup) rfl rfl <|
    d.value.isForm_toJson.required rfl <| (isForm_string d.code).required rfl <| reading_pure d

namespace NumeralExpr

def mapValue (f : Numeral → Numeral) (n : NumeralExpr) : NumeralExpr :=
  { n with value := f n.value }

theorem isForm_toJson {n : NumeralExpr} (h : n.value.ReadsBack) :
    IsForm ofJson? n.toJson (n.mapValue Numeral.plain) :=
  isForm_object (by decide : ["is_true_constant", "value", "code"].Nodup) rfl rfl <|
    (isForm_bool n.constant).required rfl <| (Numeral.isForm_toJson h).required rfl <|
    (isForm_string n.code).required rfl <| reading_pure _

end NumeralExpr

end Quantity
