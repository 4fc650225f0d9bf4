import Quantity.Proofs.Expr.Kinds
import Quantity.Proofs.Model.Scales

/-!
# Kinds of factors and offsets

Units that are elaborated have factors of their own kinds (`IsSolution.isKinded`), because each
refers to units for which that is known already. Scales have offsets of the kinds of their units
(`Sound.kind_offset`). A factor that is zero is only found out where it is known: a symbolic factor
may be zero.
-/

namespace Quantity

open List

/-- The factor of the unit is of its kind. -/
def UnitEntry.IsKinded (u : UnitEntry) : Prop := u.factor.value.kind = u.kind

namespace Elaborate

open Model

variable {options : Options} {m : Model} {us : List UnitDecl} {late : List UnitEntry}

/-! ### One declaration -/

theorem encodeDefinition_of_encodeUnit (h : encodeUnit s kind d = .ok x) :
    encodeDefinition s d.name kind d.definition = .ok x ∧
      (x.factor.constant = true → x.factor.value.isZero = false) := by
  obtain ⟨main, hmain, h⟩ := bind_eq_ok_iff.mp h
  obtain ⟨_, -, h⟩ := bind_eq_ok_iff.mp h
  split_ifs at h with hzero
  · cases h
  · cases h
    refine ⟨hmain, fun hconstant => ?_⟩
    simpa [hconstant] using hzero

/-- A unit is of the kind it is encoded in, if the units it refers to are of theirs. -/
theorem kind_of_encodeUnit
    (hlookup : ∀ name ∈ d.references, ∀ u, s.lookup name = .resolved u → u.factor.kind = u.kind)
    (h : encodeUnit s kind d = .ok x) : x.factor.value.kind = kind := by
  obtain ⟨hmain, -⟩ := encodeDefinition_of_encodeUnit h
  refine Expr.kind_of_encodeValue (fun name hn => hlookup name ?_)
    (encodeDefinition_eq_ok_iff.mp hmain).2
  exact UnitDecl.references_subset mem_cons_self hn

theorem exists_of_lookup_scopeOf {units : List UnitEntry}
    (h : (scopeOf units).lookup name = .resolved u) :
    ∃ i e, findUnit? { units } name = some i ∧ units[i]? = some e ∧ e.name = name ∧
      u = e.summary := by
  have hget : (scopeOf units).names.get? name = findUnit? { units } name :=
    get?_start_names { units } {} name
  unfold Scope.lookup at h
  rw [hget] at h
  cases hi : findUnit? { units } name with
  | none =>
    rw [hi] at h
    cases h
  | some i =>
    obtain ⟨e, he, hname⟩ := mem_places.mp (mem_of_getLast? hi)
    have hunits : (scopeOf units).units[i]? = some e := he
    rw [hi] at h
    dsimp only at h
    rw [hunits] at h
    split at h
    · rename_i heq
      cases h
      cases heq
      exact ⟨i, e, rfl, he, of_decide_eq_true hname, rfl⟩
    · cases h
    · cases h

/-! ### All declarations -/

/-- **Units that solve their declarations have factors of their own kinds.** -/
theorem IsSolution.isKinded (h : IsSolution options m us late) (hm : ∀ u ∈ m.units, u.IsKinded) :
    ∀ u ∈ late, u.IsKinded := by
  have hplace : ∀ (k : Nat) (u : UnitEntry), late[k]? = some u → u.IsKinded := by
    -- by the order in which declarations refer to each other
    intro k
    induction k using h.wellFounded.induction with
    | _ k ih =>
      intro u hu
      obtain ⟨d, hd, -⟩ := h.decl hu
      obtain ⟨e, he, hcomplete⟩ := h.meaning k d hd
      rw [hu] at hcomplete
      cases hcomplete
      refine kind_of_encodeUnit (fun name hn summary hsummary => ?_) he
      obtain ⟨i, v, -, hv, rfl, rfl⟩ := exists_of_lookup_scopeOf hsummary
      by_cases hi : i < m.units.length
      · rw [getElem?_append_left hi] at hv
        exact hm v (mem_of_getElem? hv)
      · rw [getElem?_append_right (Nat.le_of_not_lt hi)] at hv
        obtain ⟨d', hd', hname⟩ := h.decl hv
        exact ih _ ⟨d, d', hd, hd', hname ▸ hn⟩ v hv
  intro u hu
  obtain ⟨k, hk⟩ := mem_iff_getElem?.mp hu
  exact hplace k u hk

theorem IsSolution.isZero_factor (h : IsSolution options m us late) (hu : u ∈ late)
    (hconstant : u.factor.constant = true) : u.factor.value.isZero = false := by
  obtain ⟨k, hk⟩ := mem_iff_getElem?.mp hu
  obtain ⟨d, hd, -⟩ := h.decl hk
  obtain ⟨e, he, hcomplete⟩ := h.meaning k d hd
  rw [hk] at hcomplete
  cases hcomplete
  exact (encodeDefinition_of_encodeUnit he).2 hconstant

/-- **Scales have offsets of the kinds of their units**, each the last one of a name. -/
theorem Sound.kind_offset {scales : List ScaleEntry} (h : Sound options m decls late scales)
    (hm : ∀ u ∈ m.units, u.IsKinded) (hs : s ∈ scales) :
    ∃ name i u, s.unit = some i ∧
      findUnit? { units := m.units ++ kept options m late } name = some i ∧
      (m.units ++ kept options m late)[i]? = some u ∧ s.offset.value.kind = u.kind := by
  have hkinded : ∀ u ∈ m.units ++ kept options m late, u.IsKinded := by
    intro u hu
    rcases mem_append.mp hu with hu | hu
    · exact hm u hu
    · exact h.solution.isKinded hm u (mem_of_mem_filter hu)
  have hlookup : ∀ name u, (scopeOf (m.units ++ kept options m late)).lookup name = .resolved u →
      u.factor.kind = u.kind := by
    intro name u hu
    obtain ⟨i, e, -, he, -, rfl⟩ := exists_of_lookup_scopeOf hu
    exact hkinded e (mem_of_getElem? he)
  obtain ⟨d, -, hfits⟩ := h.scalesFit.exists_mem hs
  obtain ⟨i, u, offset, hi, -, hu, hoffset, rfl⟩ := encodeScale_eq_ok_iff.mp hfits.meaning
  have hkind := Expr.kind_of_encodeValue (fun name _ => hlookup name) hoffset
  exact ⟨_, i, u, hi, (get?_start_names _ _ _).symm.trans hi, hu, hkind⟩

end Elaborate

end Quantity
