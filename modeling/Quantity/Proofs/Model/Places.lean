import Quantity.Model.Basic
import Mathlib.Data.List.Forall2
import Mathlib.Data.List.Induction

/-!
# Places in a model

Entries are found by their places. Of several entries of a name the last one counts
(`findUnit?_append`).
-/

namespace Quantity

open List

theorem lt_of_getElem? {xs : List α} (h : xs[i]? = some x) : i < xs.length :=
  (List.getElem?_eq_some_iff.mp h).1

theorem exists_of_forall₂ (h : List.Forall₂ r xs ys) (hx : x ∈ xs) : ∃ y ∈ ys, r x y := by
  obtain ⟨k, hk, rfl⟩ := mem_iff_getElem.mp hx
  have hlt : k < ys.length := h.length_eq ▸ hk
  exact ⟨_, getElem_mem hlt, h.get hk hlt⟩

/-- In a list in the order of some number, search finds the entry with the least one. -/
theorem find?_eq_some_iff_first {cs : List α} {place : α → Nat}
    (hs : cs.Pairwise fun a b => place a < place b) :
    cs.find? p = some c ↔
      c ∈ cs ∧ p c = true ∧ ∀ c' ∈ cs, p c' = true → place c ≤ place c' := by
  induction cs with
  | nil => simp
  | cons a cs ih =>
    obtain ⟨ha, hs⟩ := pairwise_cons.mp hs
    by_cases hp : p a = true
    · rw [find?_cons_of_pos hp]
      constructor
      · intro h
        cases h
        refine ⟨mem_cons_self .., hp, fun c' hc' _ => ?_⟩
        rcases mem_cons.mp hc' with rfl | hc'
        · exact Nat.le_refl _
        · exact Nat.le_of_lt (ha c' hc')
      · rintro ⟨hc, -, hmin⟩
        rcases mem_cons.mp hc with rfl | hc
        · rfl
        · have h₁ := ha c hc
          have h₂ := hmin a (mem_cons_self ..) hp
          omega
    · rw [find?_cons_of_neg hp, ih hs]
      constructor
      · rintro ⟨hc, hpc, hmin⟩
        refine ⟨mem_cons_of_mem _ hc, hpc, fun c' hc' hpc' => ?_⟩
        rcases mem_cons.mp hc' with rfl | hc'
        · exact absurd hpc' hp
        · exact hmin c' hc' hpc'
      · rintro ⟨hc, hpc, hmin⟩
        rcases mem_cons.mp hc with rfl | hc
        · exact absurd hpc hp
        · exact ⟨hc, hpc, fun c' hc' => hmin c' (mem_cons_of_mem _ hc')⟩

theorem find?_eq_some_of_unique {xs : List α} {p : α → Bool} (hx : x ∈ xs) (hp : p x = true)
    (honly : ∀ y ∈ xs, p y = true → y = x) : xs.find? p = some x := by
  cases hfind : xs.find? p with
  | none => exact absurd hp (List.find?_eq_none.mp hfind x hx)
  | some y =>
    rw [honly y (mem_of_find?_eq_some hfind) (find?_some hfind)]

namespace Model

/-! ### Places of entries with a property -/

theorem pairwise_zipIdx {xs : List α} : xs.zipIdx.Pairwise fun a b => a.2 < b.2 := by
  rw [← pairwise_map (f := Prod.snd), zipIdx_map_snd]
  exact pairwise_lt_range' ..

theorem pairwise_places (xs : List α) (p : α → Bool) : (places xs p).Pairwise (· < ·) := by
  unfold places
  rw [pairwise_filterMap]
  refine pairwise_zipIdx.imp ?_
  rintro ⟨x, i⟩ ⟨y, j⟩ hij a ha b hb
  dsimp only at ha hb
  split_ifs at ha hb
  cases ha
  cases hb
  exact hij

theorem mem_places : i ∈ places xs p ↔ ∃ x, xs[i]? = some x ∧ p x = true := by
  unfold places
  rw [mem_filterMap]
  constructor
  · rintro ⟨⟨x, j⟩, hmem, h⟩
    dsimp only at h
    split_ifs at h with hp
    cases h
    exact ⟨x, mem_zipIdx_iff_getElem?.mp hmem, hp⟩
  · rintro ⟨x, hx, hp⟩
    exact ⟨(x, i), mem_zipIdx_iff_getElem?.mpr hx, by simp [hp]⟩

theorem places_append_singleton (xs : List α) (x : α) (p : α → Bool) :
    places (xs ++ [x]) p = places xs p ++ if p x then [xs.length] else [] := by
  unfold places
  rw [zipIdx_append]
  by_cases hp : p x <;> simp [hp]

theorem places_append (xs ys : List α) (p : α → Bool) :
    places (xs ++ ys) p = places xs p ++ (places ys p).map (xs.length + ·) := by
  induction ys using List.reverseRecOn with
  | nil => simp [places]
  | append_singleton ys y ih =>
    rw [← List.append_assoc, places_append_singleton, places_append_singleton, ih]
    by_cases hp : p y <;> simp [hp]

theorem places_map (f : α → β) (xs : List α) (p : β → Bool) :
    places (xs.map f) p = places xs fun x => p (f x) := by
  induction xs using List.reverseRecOn with
  | nil => rfl
  | append_singleton xs x ih =>
    rw [map_append, map_singleton, places_append_singleton, places_append_singleton, ih,
      length_map]

theorem getLast?_places_lt (h : (places xs p).getLast? = some i) : i < xs.length := by
  obtain ⟨x, hx, -⟩ := mem_places.mp (mem_of_getLast? h)
  exact lt_of_getElem? hx

/-- The only place of an entry with a property is also the last one. -/
theorem getLast?_places_eq {α : Type} {xs : List α} {p : α → Bool} {i : Nat} {x : α}
    (hi : xs[i]? = some x) (hp : p x = true)
    (honly : ∀ j y, xs[j]? = some y → p y = true → j = i) : (places xs p).getLast? = some i := by
  have hmem : i ∈ places xs p := mem_places.mpr ⟨x, hi, hp⟩
  have hlast := getLast?_eq_some_getLast (ne_nil_of_mem hmem)
  obtain ⟨y, hy, hpy⟩ := mem_places.mp (mem_of_getLast? hlast)
  rw [hlast, honly _ y hy hpy]

theorem find?_reverse_eq (xs : List α) (p : α → Bool) :
    xs.reverse.find? p = (places xs p).getLast?.bind (xs[·]?) := by
  induction xs using List.reverseRecOn with
  | nil => rfl
  | append_singleton xs x ih =>
    rw [reverse_append, reverse_singleton, singleton_append,
      places_append_singleton]
    cases hp : p x with
    | true => simp [hp]
    | false =>
      rw [find?_cons_of_neg (by simp [hp]), ih]
      simp only [Bool.false_eq_true, if_false, append_nil]
      cases hlast : (places xs p).getLast? with
      | none => rfl
      | some i => exact (getElem?_append_left (getLast?_places_lt hlast)).symm

/-- The last entry with a property is also the last one with a stronger one that it has. -/
theorem getLast?_places_of_imp {α : Type} {xs : List α} {p q : α → Bool} {i : Nat} {x : α}
    (h : (places xs p).getLast? = some i) (hx : xs[i]? = some x) (hq : q x = true)
    (himp : ∀ y, q y = true → p y = true) : (places xs q).getLast? = some i := by
  induction xs using List.reverseRecOn with
  | nil => cases hx
  | append_singleton xs y ih =>
    rw [places_append_singleton] at h ⊢
    cases hpy : p y with
    | true =>
      rw [hpy, if_pos rfl, getLast?_concat] at h
      cases h
      rw [getElem?_concat_length] at hx
      cases hx
      rw [hq, if_pos rfl, getLast?_concat]
    | false =>
      have hqy : q y = false := Bool.eq_false_iff.mpr fun hqy => by
        rw [himp y hqy] at hpy
        cases hpy
      rw [hpy] at h
      simp only [Bool.false_eq_true, if_false, append_nil] at h
      rw [hqy]
      simp only [Bool.false_eq_true, if_false, append_nil]
      exact ih h (by rwa [getElem?_append_left (getLast?_places_lt h)] at hx)

theorem getLast?_places_eq_none_iff : (places xs p).getLast? = none ↔ ∀ x ∈ xs, p x = false := by
  rw [getLast?_eq_none_iff, eq_nil_iff_forall_not_mem]
  constructor
  · intro h x hx
    obtain ⟨i, hi⟩ := mem_iff_getElem?.mp hx
    exact Bool.eq_false_iff.mpr fun hp => h i (mem_places.mpr ⟨x, hi, hp⟩)
  · intro h i hi
    obtain ⟨x, hx, hp⟩ := mem_places.mp hi
    rw [h x (mem_of_getElem? hx)] at hp
    cases hp

/-! ### Entries that are changed in place -/

theorem map_mapIdx_eq {α β : Type} {f : Nat → α → α} {g : α → β} (h : ∀ i x, g (f i x) = g x)
    (xs : List α) : (xs.mapIdx f).map g = xs.map g := by
  refine ext_getElem? fun i => ?_
  rw [getElem?_map, getElem?_map, getElem?_mapIdx]
  cases xs[i]? with
  | none => rfl
  | some x => exact congrArg some (h i x)

/-- Lists that agree in what is looked at have their entries at the same places. -/
theorem getElem?_cases_of_map_eq {xs ys : List α} (h : xs.map g = ys.map g) (i : Nat) :
    xs[i]? = none ∧ ys[i]? = none ∨ ∃ x y, xs[i]? = some x ∧ ys[i]? = some y ∧ g x = g y := by
  have hget : xs[i]?.map g = ys[i]?.map g := by
    rw [← getElem?_map, h, getElem?_map]
  cases hx : xs[i]? with
  | none =>
    rw [hx, Option.map_none, eq_comm, Option.map_eq_none_iff] at hget
    exact .inl ⟨rfl, hget⟩
  | some x =>
    rw [hx, Option.map_some, eq_comm, Option.map_eq_some_iff] at hget
    obtain ⟨y, hy, heq⟩ := hget
    exact .inr ⟨x, y, rfl, hy, heq.symm⟩

theorem exists_getElem?_of_map_eq {xs ys : List α} {i : Nat} (h : xs.map g = ys.map g)
    (hx : xs[i]? = some x) : ∃ y, ys[i]? = some y ∧ g y = g x := by
  rcases getElem?_cases_of_map_eq h i with ⟨hnone, -⟩ | ⟨x', y, hx', hy, heq⟩
  · rw [hx] at hnone
    cases hnone
  · rw [hx] at hx'
    cases hx'
    exact ⟨y, hy, heq.symm⟩

theorem exists_mem_of_map_eq {xs ys : List α} (h : xs.map g = ys.map g) (hx : x ∈ xs) :
    ∃ y ∈ ys, g y = g x := by
  obtain ⟨i, hi⟩ := mem_iff_getElem?.mp hx
  obtain ⟨y, hy, heq⟩ := exists_getElem?_of_map_eq h hi
  exact ⟨y, mem_of_getElem? hy, heq⟩

/-! ### Units of a name -/

theorem findUnit?_append (units late : List UnitEntry) (name : String) :
    findUnit? { units := units ++ late } name =
      ((findUnit? { units := late } name).map (units.length + ·)).or
        (findUnit? { units } name) := by
  unfold findUnit?
  rw [places_append, getLast?_append, getLast?_map]

theorem findUnit?_congr {m m' : Model} (h : m.units.map (·.name) = m'.units.map (·.name))
    (name : String) : m.findUnit? name = m'.findUnit? name := by
  have hmap (m : Model) :
      m.findUnit? name = (places (m.units.map (·.name)) (· = name)).getLast? := by
    rw [places_map, findUnit?]
  rw [hmap, hmap, h]

theorem findUnit?_eq_none_iff {m : Model} :
    m.findUnit? name = none ↔ ∀ u ∈ m.units, u.name ≠ name := by
  unfold findUnit?
  simp only [getLast?_places_eq_none_iff, decide_eq_false_iff_not]

end Model

end Quantity
