import Quantity.Model.Family
import Mathlib.Data.List.Pairwise
import Mathlib.Data.Set.Function

/-!
# The numbers of families

New members of families are numbered in order, and the numbers depend on what was numbered
before. What counts is only who shares a number with whom. `Numbered` says that without an
order, `assigned_assign` that numbering leads to it, and `numbered_iff_matching` that there is
only one way to do it, up to the numbers that are new.
-/

namespace Quantity.Model

open List

/-! ### Right numbers -/

section Numbered

variable {κ : Type}

/-- **The members have the right numbers.** A member whose key has a number has that number;
the others have numbers that are not in use, and share them exactly if they share a key. -/
structure Numbered (old : List FamilyId) (number : κ → Option FamilyId)
    (ps : List (Option κ × FamilyId)) : Prop where
  known : ∀ p ∈ ps, ∀ f, p.1.bind number = some f → p.2 = f
  new : ∀ p ∈ ps, p.1.bind number = none → p.2 ∉ old
  same : ps.Pairwise fun p q => p.1.bind number = none → q.1.bind number = none →
    (p.2 = q.2 ↔ p.1.isSome = true ∧ p.1 = q.1)

end Numbered

/-! ### Numbering in order -/

namespace Numbering

variable {κ : Type} [DecidableEq κ]

/-- The number of a member, with a key or without, if one is left. -/
def take? (n : Numbering κ) : Option κ → Option (FamilyId × Numbering κ)
  | some key => n.number key
  | none => n.fresh

/-- The numbers of members, one after the other, if enough are left. -/
def assign? (n : Numbering κ) : List (Option κ) → Option (List FamilyId × Numbering κ)
  | [] => some ([], n)
  | key :: keys => do
    let (f, n) ← n.take? key
    let (fs, n) ← n.assign? keys
    return (f :: fs, n)

/-- The number of a member, as if there were no end of numbers. -/
def take (n : Numbering κ) (key : Option κ) : FamilyId × Numbering κ :=
  match key.bind n.get? with
  | some f => (f, n)
  | none => (n.next, ⟨n.known ++ key.toList.map (·, n.next), n.next + 1⟩)

/-- The numbers of members, as if there were no end of them. -/
def assign (n : Numbering κ) : List (Option κ) → List FamilyId × Numbering κ
  | [] => ([], n)
  | key :: keys =>
    ((n.take key).1 :: ((n.take key).2.assign keys).1, ((n.take key).2.assign keys).2)

/-- How many new numbers the members get. -/
def opened (n : Numbering κ) : List (Option κ) → Nat
  | [] => 0
  | key :: keys => (if (key.bind n.get?).isNone then 1 else 0) + (n.take key).2.opened keys

theorem mem_of_get? {n : Numbering κ} (h : n.get? k = some f) : (k, f) ∈ n.known := by
  obtain ⟨⟨k', f'⟩, hfind, rfl⟩ := Option.map_eq_some_iff.mp h
  have hk : k' = k := by simpa using find?_some hfind
  exact hk ▸ mem_of_find?_eq_some hfind

theorem take_cases (n : Numbering κ) (key : Option κ) :
    (∃ f, key.bind n.get? = some f ∧ n.take key = (f, n)) ∨
      key.bind n.get? = none ∧ (n.take key).1 = n.next ∧ (n.take key).2.next = n.next + 1 ∧
        ∀ k, (n.take key).2.get? k = if key = some k then some n.next else n.get? k := by
  unfold take
  cases hkey : key.bind n.get? with
  | some f => exact .inl ⟨f, rfl, rfl⟩
  | none =>
    refine .inr ⟨rfl, rfl, rfl, fun k => ?_⟩
    cases key with
    | none => simp [get?]
    | some k' =>
      unfold get? at hkey ⊢
      by_cases heq : k' = k
      · subst heq
        rw [Option.bind_some, Option.map_eq_none_iff] at hkey
        simp [hkey]
      · simp [heq]

/-! ### The end of numbers -/

theorem opened_cons (n : Numbering κ) (key : Option κ) (keys : List (Option κ)) :
    n.opened (key :: keys) = n.opened [key] + (n.take key).2.opened keys := by
  simp only [opened, Nat.add_zero]

theorem toNat_next_take (n : Numbering κ) (key : Option κ)
    (h : n.next.toNat + n.opened [key] < UInt32.size) :
    (n.take key).2.next.toNat = n.next.toNat + n.opened [key] := by
  rcases n.take_cases key with ⟨f, hf, htake⟩ | ⟨hnone, -, hnext, -⟩
  · simp [opened, hf, htake]
  · simp only [opened, hnone, Option.isNone_none, if_true] at h ⊢
    rw [hnext, UInt32.toNat_add, UInt32.toNat_one, Nat.mod_eq_of_lt h]

theorem take?_eq (n : Numbering κ) (key : Option κ) :
    n.take? key =
      if n.next.toNat + n.opened [key] < UInt32.size then some (n.take key) else none := by
  have hfresh : n.fresh = if n.next.toNat + 1 < UInt32.size then
      some (n.next, { n with next := n.next + 1 }) else none := by
    unfold fresh FamilyId.next?
    split_ifs <;> rfl
  cases key with
  | none =>
    refine hfresh.trans ?_
    simp [opened, take]
  | some k =>
    show n.number k = _
    unfold number take opened
    rw [Option.bind_some]
    cases hk : n.get? k with
    | some f => exact (if_pos n.next.toNat_lt_size).symm
    | none =>
      rw [hfresh]
      show _ = if n.next.toNat + 1 < UInt32.size then _ else _
      split_ifs <;> rfl

/-- **Members get their numbers if the last one is not needed**: there is always a next number. -/
theorem assign?_eq (n : Numbering κ) (keys : List (Option κ)) :
    n.assign? keys =
      if n.next.toNat + n.opened keys < UInt32.size then some (n.assign keys) else none := by
  induction keys generalizing n with
  | nil => exact (if_pos n.next.toNat_lt_size).symm
  | cons key keys ih =>
    rw [assign?, take?_eq, opened_cons n key keys]
    by_cases hkey : n.next.toNat + n.opened [key] < UInt32.size
    · rw [if_pos hkey, ← Nat.add_assoc, ← toNat_next_take n key hkey]
      show ((n.take key).2.assign? keys).bind _ = _
      rw [ih]
      split_ifs <;> rfl
    · rw [if_neg hkey, if_neg (by omega)]
      rfl

theorem toNat_next_assign {n : Numbering κ} {keys : List (Option κ)}
    (h : n.next.toNat + n.opened keys < UInt32.size) :
    (n.assign keys).2.next.toNat = n.next.toNat + n.opened keys := by
  induction keys generalizing n with
  | nil => rfl
  | cons key keys ih =>
    rw [opened_cons, ← Nat.add_assoc] at h ⊢
    have hnext := toNat_next_take n key (by omega)
    rw [← hnext] at h ⊢
    exact ih h

/-! ### Who gets which number -/

/-- **A key keeps its number.** -/
theorem get?_assign {n : Numbering κ} (h : n.get? k = some f) (keys : List (Option κ)) :
    (n.assign keys).2.get? k = some f := by
  induction keys generalizing n with
  | nil => exact h
  | cons key keys ih =>
    refine ih ?_
    rcases n.take_cases key with ⟨g, -, htake⟩ | ⟨hnone, -, -, hget⟩
    · rw [htake]
      exact h
    · have hne : key ≠ some k := by
        rintro rfl
        rw [Option.bind_some, h] at hnone
        cases hnone
      rw [hget, if_neg hne, h]

/-- **A member has the number that its key has in the end.** -/
theorem get?_assign_of_mem (n : Numbering κ) {keys : List (Option κ)}
    (h : (some k, f) ∈ keys.zip (n.assign keys).1) :
    (n.assign keys).2.get? k = some f := by
  induction keys generalizing n with
  | nil => cases h
  | cons key keys ih =>
    rcases mem_cons.mp h with heq | h
    · obtain ⟨rfl, rfl⟩ := Prod.mk.inj heq
      refine get?_assign ?_ keys
      rcases n.take_cases (some k) with ⟨g, hg, htake⟩ | ⟨-, hfst, -, hget⟩
      · rw [htake]
        exact hg
      · rw [hget, if_pos rfl, hfst]
    · exact ih _ h

/-- What numbering does, from `n` on, if all numbers stay below a limit. -/
structure Assigned (n : Numbering κ) (limit : Nat) (ps : List (Option κ × FamilyId)) : Prop where
  known : ∀ p ∈ ps, ∀ f, p.1.bind n.get? = some f → p.2 = f
  new : ∀ p ∈ ps, p.1.bind n.get? = none → n.next.toNat ≤ p.2.toNat ∧ p.2.toNat < limit
  same : ps.Pairwise fun p q => p.1.bind n.get? = none → q.1.bind n.get? = none →
    (p.2 = q.2 ↔ p.1.isSome = true ∧ p.1 = q.1)

/-- A key without a number has one afterwards only if it was given the next one. -/
theorem bind_get?_cases {n n₁ : Numbering κ}
    (hget : ∀ k, n₁.get? k = if key = some k then some n.next else n.get? k)
    (hnone : other.bind n.get? = none) :
    (other.isSome = true ∧ other = key) ∧ other.bind n₁.get? = some n.next ∨
      ¬ (other.isSome = true ∧ other = key) ∧ other.bind n₁.get? = none := by
  cases other with
  | none => exact .inr ⟨fun h => Bool.noConfusion h.1, rfl⟩
  | some k =>
    by_cases heq : key = some k
    · exact .inl ⟨⟨rfl, heq.symm⟩, (hget k).trans (if_pos heq)⟩
    · exact .inr ⟨fun h => heq h.2.symm, ((hget k).trans (if_neg heq)).trans hnone⟩

section Cons

variable {n : Numbering κ} {limit : Nat} {key : Option κ} {ps : List (Option κ × FamilyId)}

theorem Assigned.cons_known (h : Assigned n limit ps) (hf : key.bind n.get? = some f) :
    Assigned n limit ((key, f) :: ps) := by
  refine ⟨?_, ?_, ?_⟩
  · refine forall_mem_cons.mpr ⟨fun f' hf' => ?_, h.known⟩
    rw [hf] at hf'
    exact Option.some.inj hf'
  · refine forall_mem_cons.mpr ⟨fun hnone => ?_, h.new⟩
    rw [hf] at hnone
    cases hnone
  · refine pairwise_cons.mpr ⟨fun q _ hnone => ?_, h.same⟩
    rw [hf] at hnone
    cases hnone

/-- Once a number is given to a new key, others without a number have that key and this number,
or a later one. -/
theorem Assigned.later_cases (h : Assigned n₁ limit' ps)
    (hget : ∀ k, n₁.get? k = if key = some k then some n.next else n.get? k)
    (hlater : ∀ f : FamilyId, n₁.next.toNat ≤ f.toNat → f.toNat < limit' → n.next.toNat < f.toNat ∧
      f.toNat < limit) (hq : q ∈ ps) (hqnone : q.1.bind n.get? = none) :
    (q.1.isSome = true ∧ q.1 = key) ∧ q.2 = n.next ∨
      ¬ (q.1.isSome = true ∧ q.1 = key) ∧ q.1.bind n₁.get? = none ∧ q.2 ≠ n.next ∧
        n.next.toNat ≤ q.2.toNat ∧ q.2.toNat < limit := by
  rcases bind_get?_cases hget hqnone with ⟨hkey, hsome⟩ | ⟨hkey, hqnone⟩
  · exact .inl ⟨hkey, h.known q hq _ hsome⟩
  · obtain ⟨hge, hlt⟩ := h.new q hq hqnone
    obtain ⟨hgt, hlt⟩ := hlater q.2 hge hlt
    refine .inr ⟨hkey, hqnone, fun heq => ?_, by omega, hlt⟩
    rw [heq] at hgt
    omega

theorem Assigned.cons_new (h : Assigned n₁ limit' ps)
    (hget : ∀ k, n₁.get? k = if key = some k then some n.next else n.get? k)
    (hlater : ∀ f : FamilyId, n₁.next.toNat ≤ f.toNat → f.toNat < limit' → n.next.toNat < f.toNat ∧
      f.toNat < limit) (hlimit : n.next.toNat < limit) (hnone : key.bind n.get? = none) :
    Assigned n limit ((key, n.next) :: ps) := by
  refine ⟨?_, ?_, ?_⟩
  · refine forall_mem_cons.mpr ⟨fun f hf => ?_, fun q hq f hf => h.known q hq f ?_⟩
    · rw [hnone] at hf
      cases hf
    · obtain ⟨k, hk, hf⟩ := Option.bind_eq_some_iff.mp hf
      have hne : key ≠ some k := by
        rintro rfl
        rw [Option.bind_some, hf] at hnone
        cases hnone
      rw [hk, Option.bind_some, hget, if_neg hne, hf]
  · refine forall_mem_cons.mpr ⟨fun _ => ⟨Nat.le_refl _, hlimit⟩, ?_⟩
    intro q hq hqnone
    rcases h.later_cases hget hlater hq hqnone with ⟨-, heq⟩ | ⟨-, -, -, hrange⟩
    · rw [heq]
      exact ⟨Nat.le_refl _, hlimit⟩
    · exact hrange
  · refine pairwise_cons.mpr ⟨fun q hq _ hqnone => ?_, ?_⟩
    · rcases h.later_cases hget hlater hq hqnone with ⟨⟨hsome, hkey⟩, heq⟩ | ⟨hkey, -, hne, -⟩
      · rw [← hkey]
        exact iff_of_true heq.symm ⟨hsome, rfl⟩
      · exact iff_of_false hne.symm fun ⟨hsome, heq⟩ => hkey ⟨heq ▸ hsome, heq.symm⟩
    · refine h.same.imp_of_mem fun {p q} hp hq hsame hpnone hqnone => ?_
      rcases h.later_cases hget hlater hp hpnone with
          ⟨⟨hpsome, hpkey⟩, hpeq⟩ | ⟨hpkey, hpnone', hpne, -⟩ <;>
        rcases h.later_cases hget hlater hq hqnone with
          ⟨⟨hqsome, hqkey⟩, hqeq⟩ | ⟨hqkey, hqnone', hqne, -⟩
      · exact iff_of_true (hpeq.trans hqeq.symm) ⟨hpsome, hpkey.trans hqkey.symm⟩
      · refine iff_of_false (fun heq => hqne (heq.symm.trans hpeq)) fun h => ?_
        exact hqkey ⟨h.2 ▸ h.1, h.2.symm.trans hpkey⟩
      · refine iff_of_false (fun heq => hpne (heq.trans hqeq)) fun h => ?_
        exact hpkey ⟨h.1, h.2.trans hqkey⟩
      · exact hsame hpnone' hqnone'

end Cons

theorem length_assign (n : Numbering κ) (keys : List (Option κ)) :
    (n.assign keys).1.length = keys.length := by
  induction keys generalizing n with
  | nil => rfl
  | cons key keys ih => exact congrArg (· + 1) (ih _)

/-- **Numbering in order leads to right numbers**, if there is room for the new ones. -/
theorem assigned_assign {n : Numbering κ} {keys : List (Option κ)}
    (hroom : n.next.toNat + n.opened keys < UInt32.size) :
    Assigned n (n.next.toNat + n.opened keys) (keys.zip (n.assign keys).1) := by
  induction keys generalizing n with
  | nil => exact ⟨nofun, nofun, .nil⟩
  | cons key keys ih =>
    rw [opened_cons, ← Nat.add_assoc] at hroom ⊢
    have hnext := toNat_next_take n key (by omega)
    rw [← hnext] at hroom ⊢
    simp only [assign]
    rcases n.take_cases key with ⟨f, hf, htake⟩ | ⟨hnone, hfst, -, hget⟩
    · rw [htake] at hroom ⊢
      exact (ih hroom).cons_known hf
    · simp only [opened, hnone, Option.isNone_none, if_true] at hnext
      rw [hfst]
      exact (ih hroom).cons_new hget (fun f hge hlt => ⟨by omega, hlt⟩) (by omega) hnone

theorem Assigned.numbered {n : Numbering κ} (h : Assigned n limit ps)
    (hold : ∀ f ∈ old, f.toNat < n.next.toNat) : Numbered old n.get? ps where
  known := h.known
  new p hp hnone hmem := by
    have := hold _ hmem
    have := (h.new p hp hnone).1
    omega
  same := h.same

end Numbering

/-! ### One way to number -/

/-- Two numberings side by side share their numbers alike. -/
def Matching (ps : List (FamilyId × FamilyId)) : Prop :=
  ∀ p ∈ ps, ∀ q ∈ ps, (p.1 = q.1 ↔ p.2 = q.2)

theorem Matching.of_append (h : Matching (ps ++ qs)) : Matching ps :=
  fun p hp q hq => h p (mem_append_left _ hp) q (mem_append_left _ hq)

section Matching

variable {κ : Type} {number : κ → Option FamilyId} {old : List (FamilyId × FamilyId)}
  {zs : List ((Option κ × FamilyId) × (Option κ × FamilyId))}

/-- Members of two numberings side by side, behind old ones: their keys have numbers that stand
side by side, or none, and they share keys alike. -/
structure Compatible (number : κ → Option FamilyId) (old : List (FamilyId × FamilyId))
    (zs : List ((Option κ × FamilyId) × (Option κ × FamilyId))) : Prop where
  number : ∀ z ∈ zs, z.1.1.bind number = none ∧ z.2.1.bind number = none ∨
    ∃ o ∈ old, z.1.1.bind number = some o.1 ∧ z.2.1.bind number = some o.2
  same : ∀ z ∈ zs, ∀ w ∈ zs,
    (z.1.1.isSome = true ∧ z.1.1 = w.1.1 ↔ z.2.1.isSome = true ∧ z.2.1 = w.2.1)

/-- Members side by side have old numbers that stand side by side, or both have new ones. -/
theorem Compatible.cases (hc : Compatible number old zs)
    (h : Numbered (old.map (·.1)) number (zs.map (·.1)))
    (h' : Numbered (old.map (·.2)) number (zs.map (·.2))) (hz : z ∈ zs) :
    (z.1.2, z.2.2) ∈ old ∨ (z.1.1.bind number = none ∧ z.2.1.bind number = none) ∧
      z.1.2 ∉ old.map (·.1) ∧ z.2.2 ∉ old.map (·.2) := by
  have hz₁ : z.1 ∈ zs.map (·.1) := mem_map_of_mem hz
  have hz₂ : z.2 ∈ zs.map (·.2) := mem_map_of_mem hz
  rcases hc.number z hz with hnone | ⟨o, ho, hsome, hsome'⟩
  · exact .inr ⟨hnone, h.new z.1 hz₁ hnone.1, h'.new z.2 hz₂ hnone.2⟩
  · refine .inl ?_
    rw [h.known z.1 hz₁ _ hsome, h'.known z.2 hz₂ _ hsome']
    exact ho

theorem Compatible.matching (hc : Compatible number old zs) (hold : Matching old)
    (h : Numbered (old.map (·.1)) number (zs.map (·.1)))
    (h' : Numbered (old.map (·.2)) number (zs.map (·.2))) :
    Matching (old ++ zs.map fun z => (z.1.2, z.2.2)) := by
  have hpair : zs.Pairwise fun z w => z.1.1.bind number = none ∧ z.2.1.bind number = none →
      w.1.1.bind number = none ∧ w.2.1.bind number = none →
        (z.1.2 = w.1.2 ↔ z.2.2 = w.2.2) := by
    refine ((pairwise_map.mp h.same).and (pairwise_map.mp h'.same)).imp_of_mem ?_
    intro z w hz hw hsame hznone hwnone
    rw [hsame.1 hznone.1 hwnone.1, hsame.2 hznone.2 hwnone.2]
    exact hc.same z hz w hw
  have hnew := hpair.forall_of_forall_of_flip (fun _ _ _ _ => iff_of_true rfl rfl) <|
    hpair.imp fun hzw hw hz => by rw [eq_comm, hzw hz hw, eq_comm]
  -- a member with an old number counts as that number
  have hreduce {p : FamilyId × FamilyId} (hp : p ∈ old ++ zs.map fun z => (z.1.2, z.2.2)) :
      p ∈ old ∨ ∃ z ∈ zs, p = (z.1.2, z.2.2) ∧
        (z.1.1.bind number = none ∧ z.2.1.bind number = none) ∧
          p.1 ∉ old.map (·.1) ∧ p.2 ∉ old.map (·.2) := by
    rcases mem_append.mp hp with hp | hp
    · exact .inl hp
    · obtain ⟨z, hz, rfl⟩ := mem_map.mp hp
      rcases hc.cases h h' hz with hold | hnew
      · exact .inl hold
      · exact .inr ⟨z, hz, rfl, hnew⟩
  intro p hp q hq
  rcases hreduce hp with hp | ⟨z, hz, rfl, hznone, hz₁, hz₂⟩ <;>
    rcases hreduce hq with hq | ⟨w, hw, rfl, hwnone, hw₁, hw₂⟩
  · exact hold p hp q hq
  · refine iff_of_false (fun heq => hw₁ ?_) fun heq => hw₂ ?_
    · exact heq ▸ mem_map_of_mem hp
    · exact heq ▸ mem_map_of_mem hp
  · refine iff_of_false (fun heq => hz₁ ?_) fun heq => hz₂ ?_
    · exact heq ▸ mem_map_of_mem hq
    · exact heq ▸ mem_map_of_mem hq
  · exact hnew hz hw hznone hwnone

/-- **There is only one way to number**, up to new numbers: members side by side with a right
numbering are numbered right exactly if they share their numbers alike. -/
theorem Compatible.numbered_iff_matching (hc : Compatible number old zs) (hold : Matching old)
    (h' : Numbered (old.map (·.2)) number (zs.map (·.2))) :
    Numbered (old.map (·.1)) number (zs.map (·.1)) ↔
      Matching (old ++ zs.map fun z => (z.1.2, z.2.2)) := by
  refine ⟨fun h => hc.matching hold h h', fun h => ⟨?_, ?_, ?_⟩⟩
  · rintro _ hp f hf
    obtain ⟨z, hz, rfl⟩ := mem_map.mp hp
    rcases hc.number z hz with hnone | ⟨o, ho, hsome, hsome'⟩
    · rw [hnone.1] at hf
      cases hf
    · rw [hsome] at hf
      cases hf
      refine (h (z.1.2, z.2.2) ?_ o (mem_append_left _ ho)).mpr ?_
      · exact mem_append_right _ (mem_map.mpr ⟨z, hz, rfl⟩)
      · exact h'.known z.2 (mem_map_of_mem hz) _ hsome'
  · rintro _ hp hnone hmem
    obtain ⟨z, hz, rfl⟩ := mem_map.mp hp
    rcases hc.number z hz with ⟨-, hnone'⟩ | ⟨o, -, hsome, -⟩
    · obtain ⟨o, ho, heq⟩ := mem_map.mp hmem
      refine h'.new z.2 (mem_map_of_mem hz) hnone' (mem_map.mpr ⟨o, ho, ?_⟩)
      refine (h o (mem_append_left _ ho) (z.1.2, z.2.2) ?_).mp heq
      exact mem_append_right _ (mem_map.mpr ⟨z, hz, rfl⟩)
    · rw [hnone] at hsome
      cases hsome
  · refine pairwise_map.mpr ((pairwise_map.mp h'.same).imp_of_mem ?_)
    intro z w hz hw hsame hznone hwnone
    have hnone {v : (Option κ × FamilyId) × (Option κ × FamilyId)} (hv : v ∈ zs)
        (hvnone : v.1.1.bind number = none) : v.2.1.bind number = none := by
      rcases hc.number v hv with ⟨-, hnone'⟩ | ⟨o, -, hsome, -⟩
      · exact hnone'
      · rw [hvnone] at hsome
        cases hsome
    rw [hc.same z hz w hw, ← hsame (hnone hz hznone) (hnone hw hwnone)]
    refine h (z.1.2, z.2.2) ?_ (w.1.2, w.2.2) ?_
    · exact mem_append_right _ (mem_map.mpr ⟨z, hz, rfl⟩)
    · exact mem_append_right _ (mem_map.mpr ⟨w, hw, rfl⟩)

theorem Compatible.numbered_map_iff_matching (k k' : α → Option κ × FamilyId) {xs ys : List α}
    (hlen : xs.length = ys.length)
    (hc : Compatible number old ((xs.zip ys).map fun e => (k e.1, k' e.2))) (hold : Matching old)
    (h' : Numbered (old.map (·.2)) number (ys.map k')) :
    Numbered (old.map (·.1)) number (xs.map k) ↔
      Matching (old ++ (xs.zip ys).map fun e => ((k e.1).2, (k' e.2).2)) := by
  have hxs : ((xs.zip ys).map fun e => (k e.1, k' e.2)).map (·.1) = xs.map k := by
    conv_rhs => rw [← map_fst_zip hlen.le]
    rw [map_map, map_map]
    rfl
  have hys : ((xs.zip ys).map fun e => (k e.1, k' e.2)).map (·.2) = ys.map k' := by
    conv_rhs => rw [← map_snd_zip hlen.ge]
    rw [map_map, map_map]
    rfl
  have hiff := hc.numbered_iff_matching hold (hys.symm ▸ h')
  rw [hxs, map_map] at hiff
  exact hiff

/-- Numbers side by side that are shared alike are renumbered one into the other. -/
theorem matching_iff_exists :
    Matching ps ↔ ∃ ρ : FamilyId → FamilyId, Set.InjOn ρ {f | f ∈ ps.map (·.1)} ∧
      ∀ p ∈ ps, ρ p.1 = p.2 := by
  constructor
  · intro h
    have hρ : ∀ p ∈ ps, ((ps.find? (·.1 = p.1)).map (·.2)).getD p.1 = p.2 := by
      intro p hp
      cases hfind : ps.find? (·.1 = p.1) with
      | none => exact absurd (decide_eq_true rfl) (List.find?_eq_none.mp hfind p hp)
      | some q =>
        have hq : q.1 = p.1 := by simpa using find?_some hfind
        exact (h q (mem_of_find?_eq_some hfind) p hp).mp hq
    refine ⟨fun f => ((ps.find? (·.1 = f)).map (·.2)).getD f, ?_, hρ⟩
    intro f hf g hg heq
    obtain ⟨p, hp, rfl⟩ := mem_map.mp hf
    obtain ⟨q, hq, rfl⟩ := mem_map.mp hg
    exact (h p hp q hq).mpr ((hρ p hp).symm.trans (heq.trans (hρ q hq)))
  · rintro ⟨ρ, hinj, hρ⟩ p hp q hq
    rw [← hρ p hp, ← hρ q hq]
    refine ⟨congrArg ρ, fun heq => hinj ?_ ?_ heq⟩
    · exact mem_map_of_mem hp
    · exact mem_map_of_mem hq

end Matching

end Quantity.Model
