import Quantity.Proofs.Number.Decimal
import Quantity.Proofs.Text.Json
import Mathlib.Data.List.Nodup

/-!
# Forms of values

What has a type of its own is written by way of a JSON value, its form. A form must have a text,
and reading the form must give the value (`IsForm`). Both are shown together, for numbers, lists and
optional values here and for records field by field: the fields of a record are found by their
names (`isForm_object`), and reading goes on with what was found (`IsForm.required`,
`IsForm.optional`, `IsForm.withDefault`) or with what stands for a missing field. So a value is read
back from its text (`IsForm.read?_write`).
-/

namespace Quantity.Text.Json

open Quantity.Number

variable {α β γ : Type} {type : Json → Option α} {j : Json} {a : α}

/-- The form has a text, and it is read as the value. -/
structure IsForm (type : Json → Option α) (j : Json) (a : α) : Prop where
  regular : j.Regular
  read : type j = some a

/-- **A value is read back from the text of its form.** -/
theorem IsForm.read?_write (h : IsForm type j a) (hsp : sp.IsBlank) :
    (Json.read? (j.write sp)).bind type = some a := by
  rw [Json.read?_write hsp h.regular, Option.bind_some, h.read]

/-! ### Plain values -/

theorem isForm_string (s : String) : IsForm toString? (.string s) s := ⟨.string s, rfl⟩

theorem isForm_bool (b : Bool) : IsForm toBool? (.bool b) b := ⟨.bool b, rfl⟩

theorem toInt?_int (n : Int) : (int n).toInt? = some n := by
  have hdigits := isDigits_toDigits n.natAbs
  have hsplit : splitSign (toString n).toList = (decide (n < 0), Nat.toDigits 10 n.natAbs) := by
    have := splitSign_digits hdigits (decide (n < 0)) []
    rw [List.append_nil] at this
    rw [toList_toString, ← this]
    simp only [decide_eq_true_eq]
  have hall : (Nat.toDigits 10 n.natAbs).all Char.isDigit = true := List.all_eq_true.mpr hdigits.2
  unfold int toInt?
  dsimp only
  rw [hsplit]
  rw [hall, digitsValue_toDigits]
  by_cases hn : n < 0
  · have hzero : n.natAbs ≠ 0 := by omega
    simp only [hn, hzero, decide_true, decide_false, Bool.and_false, Bool.not_true, Bool.or_self,
      Bool.false_eq_true, if_false, if_true]
    congr 1
    omega
  · simp only [hn, decide_false, Bool.false_and, Bool.not_true, Bool.or_self, Bool.false_eq_true,
      if_false]
    congr 1
    omega

theorem isForm_int (n : Int) : IsForm toInt? (int n) n :=
  ⟨.number (isNumber_toString n), toInt?_int n⟩

theorem isForm_uint32 (n : UInt32) : IsForm toUInt32? (int n.toNat) n.toNat := by
  refine ⟨(isForm_int _).regular, ?_⟩
  have hbound : (n.toNat : Int) < (twoPow 32 : Nat) := Int.ofNat_lt.mpr n.toNat_lt
  have hrange : (decide (0 ≤ (n.toNat : Int)) && decide ((n.toNat : Int) < twoPow 32)) = true := by
    rw [decide_eq_true (Int.natCast_nonneg _), decide_eq_true hbound, Bool.and_self]
  -- rewriting only: computing the condition would unroll the bound
  rw [toUInt32?, toInt?_int, Option.bind_eq_bind, Option.bind_some, if_pos hrange,
    Int.toNat_natCast]

/-! ### Lists and optional values -/

/-- **The items of a list are read one by one.** -/
theorem isForm_array {xs : List β} (h : ∀ x ∈ xs, IsForm type (f x) (g x)) :
    IsForm (listOf? type) (.array (xs.map f)) (xs.map g) := by
  refine ⟨.array fun j hj => ?_, ?_⟩
  · obtain ⟨x, hx, rfl⟩ := List.mem_map.mp hj
    exact (h x hx).regular
  · show (xs.map f).mapM type = _
    induction xs with
    | nil => rfl
    | cons x xs ih =>
      obtain ⟨hx, hxs⟩ := List.forall_mem_cons.mp h
      simp [hx.read, ih hxs]

theorem isForm_strings (ss : List String) : IsForm (listOf? toString?) (strings ss) ss := by
  have h := isForm_array (g := id) fun s (_ : s ∈ ss) => isForm_string s
  rwa [List.map_id] at h

def nullable (type : Json → Option α) : Json → Option (Option α)
  | .null => some none
  | j => (type j).map some

theorem isForm_orNull (hnull : type .null = none) {f : β → Json} {g : β → α} {o : Option β}
    (h : ∀ b ∈ o, IsForm type (f b) (g b)) :
    IsForm (nullable type) (orNull f o) (o.map g) := by
  cases o with
  | none => exact ⟨.null, rfl⟩
  | some b =>
    obtain ⟨hregular, hread⟩ := h b rfl
    refine ⟨hregular, ?_⟩
    show nullable type (f b) = _
    unfold nullable
    split
    · rename_i heq
      rw [heq, hnull] at hread
      cases hread
    · rw [hread]
      rfl

theorem isForm_orNull_string (o : Option String) :
    IsForm (nullable toString?) (orNull .string o) o := by
  have h := isForm_orNull (g := id) rfl fun s (_ : s ∈ o) => isForm_string s
  rwa [Option.map_id] at h

/-! ### Records -/

/-- The values of the fields have texts, and reading them gives the record. -/
structure Reading (values : List Json) (read : Option α) (a : α) : Prop where
  regular : ∀ j ∈ values, j.Regular
  eq : read = some a

theorem reading_pure (a : α) : Reading [] (pure a) a := ⟨nofun, rfl⟩

section Fields

variable {values : List Json} {fields : List (String × Json)} {name : String} {c : γ}

/-- **A record is read from the object of its fields**, whichever of them are known. -/
theorem isForm_object {type : Json → Option γ} {k : List (String × Json) → Option γ}
    (hnames : names.Nodup) (htype : type (.object fields) = (record? known (.object fields) >>= k))
    (hfields : fields.map (·.1) = names) (h : Reading (fields.map (·.2)) (k fields) c) :
    IsForm type (.object fields) c := by
  have hread : record? known (.object fields) = some fields := by
    refine if_pos (List.all_eq_true.mpr fun name _ => decide_eq_true ?_)
    have hcount := List.nodup_iff_count_le_one.mp hnames name
    rw [← hfields, List.count_eq_countP, List.countP_map] at hcount
    convert hcount using 2
    funext f
    simp [beq_eq_decide]
  refine ⟨.object fun f hf => h.regular _ (List.mem_map_of_mem hf), ?_⟩
  rw [htype, hread]
  exact h.eq

theorem IsForm.required?_eq (h : IsForm type j a) (hj : field? fields name = some j) :
    required? fields name type = some a := by
  rw [required?, hj, Option.bind_some, h.read]

variable {k : α → Option γ}

theorem IsForm.required (h : IsForm type j a) (hj : field? fields name = some j)
    (hk : Reading values (k a) c) : Reading (j :: values) (required? fields name type >>= k) c := by
  refine ⟨List.forall_mem_cons.mpr ⟨h.regular, hk.regular⟩, ?_⟩
  rw [h.required?_eq hj]
  exact hk.eq

theorem IsForm.withDefault (h : IsForm type j a) (hj : field? fields name = some j)
    (hk : Reading values (k a) c) :
    Reading (j :: values) (withDefault? fields name other type >>= k) c := by
  have hread : withDefault? fields name other type = required? fields name type := by
    rw [withDefault?, required?, hj, Option.bind_some]
  rw [hread]
  exact h.required hj hk

theorem withDefault_missing (hj : field? fields name = none) (hk : Reading values (k other) c) :
    Reading values (withDefault? fields name other type >>= k) c := by
  refine ⟨hk.regular, ?_⟩
  rw [withDefault?, hj]
  exact hk.eq

variable {k : Option α → Option γ}

theorem IsForm.optional (h : IsForm (nullable type) j o) (hj : field? fields name = some j)
    (hk : Reading values (k o) c) : Reading (j :: values) (optional? fields name type >>= k) c := by
  have hread : optional? fields name type = required? fields name (nullable type) := by
    unfold optional? required? nullable
    rw [hj]
    cases j <;> rfl
  rw [hread]
  exact h.required hj hk

theorem optional_missing (hj : field? fields name = none) (hk : Reading values (k none) c) :
    Reading values (optional? fields name type >>= k) c := by
  refine ⟨hk.regular, ?_⟩
  rw [optional?, hj]
  exact hk.eq

end Fields

end Quantity.Text.Json
