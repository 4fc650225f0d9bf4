import Quantity.Proofs.Model.FixedPoint

/-!
# Declarations that are accepted

A declaration is refused only for its name or its tags. `declareUnits_cases` says which lists of
declarations are accepted as a whole behind the units of a model: those that share neither
names nor tags, and take tags from no earlier unit but the one whose name they reuse.
-/

namespace Quantity

open List

@[simp] theorem Diagnostics.hasErrors_push (ds : Diagnostics) (d : Diagnostic) :
    (ds.push d).hasErrors = (ds.hasErrors || d.isError) := by
  simp [hasErrors, push, Diagnostic.isError]

namespace Elaborate

variable {options : Options} {m : Model}

/-! ### Tags -/

theorem get?_start_tags (m : Model) (ds : Diagnostics) (tag : String) :
    (start m ds).tags.get? tag = m.findTag? tag := by
  have hunit (t : Table) (tags : List String) (i : Nat) :
      (tags.foldl (·.insert · i) t).get? tag = if tag ∈ tags then some i else t.get? tag := by
    induction tags generalizing t with
    | nil => rfl
    | cons other tags ih =>
      rw [foldl_cons, ih]
      by_cases htag : other = tag
      · simp [htag]
      · simp [htag, Ne.symm htag]
  unfold start Model.findTag?
  induction m.units using List.reverseRecOn with
  | nil => rfl
  | append_singleton us u ih =>
    rw [zipIdx_append, Model.places_append_singleton]
    by_cases hn : tag ∈ u.tags
    · simp [hn, hunit]
    · simp [hn, hunit, ih]

/-! ### Declarations that wait -/

/-- Two declarations share neither their name nor a tag. -/
def Differ (d d' : UnitDecl) : Prop := d.name ≠ d'.name ∧ d.tags.Disjoint d'.tags

/-- A declaration fits the units of a model: its name may be reused if it is, and its tags are
free or belong to the unit whose name it reuses. -/
structure Admits (options : Options) (m : Model) (d : UnitDecl) : Prop where
  name : options.redeclaration = .reject → m.findUnit? d.name = none
  tags : ∀ tag ∈ d.tags, ∀ i, m.findTag? tag = some i → m.findUnit? d.name = some i

/-- Whether a declaration begins a family of its own, since it reuses a name. -/
def redeclares (options : Options) (m : Model) (d : UnitDecl) : Bool :=
  options.redeclaration = .newFamily && (m.findUnit? d.name).isSome

/-- The late units that reuse names, as places, with the earlier units. -/
def aliasesOf (options : Options) (m : Model) (us : List UnitDecl) : List (Nat × Nat) :=
  if options.redeclaration = .sameUnit then
    us.zipIdx.filterMap fun (d, k) => (m.findUnit? d.name).map (m.units.length + k, ·)
  else []

theorem aliasesOf_concat (options : Options) (m : Model) (us : List UnitDecl) (d : UnitDecl) :
    aliasesOf options m (us ++ [d]) = aliasesOf options m us ++
      pairOf options (m.units.length + us.length) (m.findUnit? d.name) := by
  unfold aliasesOf pairOf
  split_ifs
  · rw [zipIdx_append]
    cases hn : m.findUnit? d.name <;> simp [hn]
  · rfl

/-- A table leads the keys of late entries to their places from `n` on, and all other keys to
where they are known. -/
def Owners {α : Type} (keys : α → List String) (known : String → Option Nat) (n : Nat)
    (xs : List α) (t : Table) : Prop :=
  ∀ key i, t.get? key = some i ↔
    (∃ (k : Nat) (x : α), xs[k]? = some x ∧ key ∈ keys x ∧ i = n + k) ∨
      (∀ x ∈ xs, key ∉ keys x) ∧ known key = some i

section Owners

variable {α : Type} {keys : α → List String} {known : String → Option Nat} {n : Nat} {xs : List α}
  {t t' : Table} {x : α} {key : String}

theorem Owners.nil (h : ∀ key, t.get? key = known key) : Owners keys known n [] t := by
  intro key i
  simp [h]

theorem Owners.late (h : Owners keys known n xs t) (hk : xs[k]? = some x) (hkey : key ∈ keys x) :
    t.get? key = some (n + k) :=
  (h key (n + k)).mpr (.inl ⟨k, x, hk, hkey, rfl⟩)

theorem Owners.early (h : Owners keys known n xs t) (hkey : ∀ x ∈ xs, key ∉ keys x) :
    t.get? key = known key := by
  refine Option.ext fun i => ?_
  rw [h key i]
  refine ⟨?_, fun hi => .inr ⟨hkey, hi⟩⟩
  rintro (⟨k, x, hk, hmem, -⟩ | ⟨-, hi⟩)
  · exact absurd hmem (hkey x (mem_of_getElem? hk))
  · exact hi

theorem Owners.concat (h : Owners keys known n xs t)
    (ht : ∀ key, t'.get? key = if key ∈ keys x then some (n + xs.length) else t.get? key)
    (hne : ∀ x' ∈ xs, (keys x').Disjoint (keys x)) : Owners keys known n (xs ++ [x]) t' := by
  intro key i
  rw [ht]
  split_ifs with hkey
  · constructor
    · rintro ⟨⟩
      exact .inl ⟨xs.length, x, getElem?_concat_length .., hkey, rfl⟩
    · rintro (⟨k, x', hk, hmem, rfl⟩ | ⟨hnone, -⟩)
      · rcases getElem?_append_singleton_iff.mp hk with hk | ⟨rfl, rfl⟩
        · exact absurd hkey (hne x' (mem_of_getElem? hk) hmem)
        · rfl
      · exact absurd hkey (hnone x (mem_append_right _ (mem_singleton_self x)))
  · rw [h key i]
    constructor
    · rintro (⟨k, x', hk, hmem, rfl⟩ | ⟨hnone, hi⟩)
      · exact .inl ⟨k, x', getElem?_append_singleton_iff.mpr (.inl hk), hmem, rfl⟩
      · refine .inr ⟨fun x' hx' => ?_, hi⟩
        rcases mem_append.mp hx' with hx' | hx'
        · exact hnone x' hx'
        · rw [mem_singleton.mp hx']
          exact hkey
    · rintro (⟨k, x', hk, hmem, rfl⟩ | ⟨hnone, hi⟩)
      · rcases getElem?_append_singleton_iff.mp hk with hk | ⟨rfl, rfl⟩
        · exact .inl ⟨k, x', hk, hmem, rfl⟩
        · exact absurd hmem hkey
      · exact .inr ⟨fun x' hx' => hnone x' (mem_append_left _ hx'), hi⟩

end Owners

/-- All declarations wait, each at its place behind the units of a model. -/
structure AllWait (options : Options) (m : Model) (ds : Diagnostics) (us : List UnitDecl)
    (p : Progress) (todo : Todo) : Prop where
  units : p.units = m.units ++ us.map fun d => fresh options d (redeclares options m d)
  states : p.states = (start m ds).states ++ us.map fun _ => .pending
  names : Owners (fun d => [d.name]) m.findUnit? m.units.length us p.names
  tags : Owners (·.tags) m.findTag? m.units.length us p.tags
  pending : ∀ i d, (i, d) ∈ todo.pending ↔ ∃ k, i = m.units.length + k ∧ us[k]? = some d
  nodup : (todo.pending.map (·.1)).Nodup
  aliases : todo.aliases = aliasesOf options m us
  diagnostics : p.diagnostics = ds

theorem allWait_start (options : Options) (m : Model) (ds : Diagnostics) :
    AllWait options m ds [] (start m ds) {} where
  units := (append_nil _).symm
  states := (append_nil _).symm
  names := .nil (get?_start_names m ds)
  tags := .nil (get?_start_tags m ds)
  pending _ _ := by simp
  nodup := nodup_nil
  aliases := by simp [aliasesOf]
  diagnostics := rfl

section AllWait

variable {ds : Diagnostics} {us : List UnitDecl} {p q : Progress} {todo todo' : Todo}
  {d : UnitDecl} (h : AllWait options m ds us p todo)
include h

theorem AllWait.length : p.units.length = m.units.length + us.length := by
  rw [h.units, length_append, length_map]

theorem AllWait.length_states : p.states.length = p.units.length := by
  rw [h.states, h.units]
  simp [start]

theorem AllWait.free (hname : ∀ d' ∈ us, d'.name ≠ d.name)
    (hpolicy : options.redeclaration = .reject → m.findUnit? d.name = none)
    (hfree : ∀ tag ∈ d.tags, ∀ owner, p.tags.get? tag = some owner →
      owner = p.units.length ∨ m.findUnit? d.name = some owner) :
    (∀ d' ∈ us, Differ d' d) ∧ Admits options m d := by
  have hlen := h.length
  have hdiffer : ∀ d' ∈ us, Differ d' d := by
    intro d' hd'
    refine ⟨hname d' hd', fun tag htag' htag => ?_⟩
    obtain ⟨k, hk⟩ := mem_iff_getElem?.mp hd'
    have hlt := lt_of_getElem? hk
    rcases hfree tag htag _ (h.tags.late hk htag') with heq | heq
    · omega
    · have := Model.getLast?_places_lt heq
      omega
  refine ⟨hdiffer, hpolicy, fun tag htag i hi => ?_⟩
  have howner : p.tags.get? tag = some i :=
    (h.tags.early fun d' hd' htag' => (hdiffer d' hd').2 htag' htag).trans hi
  rcases hfree tag htag i howner with heq | heq
  · have := Model.getLast?_places_lt hi
    omega
  · exact heq

theorem AllWait.not_free (htag : tag ∈ d.tags) (ho : p.tags.get? tag = some owner)
    (hr : m.findUnit? d.name ≠ some owner) :
    ¬ ((∀ d' ∈ us, Differ d' d) ∧ Admits options m d) := by
  rintro ⟨hdiffer, hadmits⟩
  rcases (h.tags tag owner).mp ho with ⟨k, d', hk, htag', -⟩ | ⟨-, ho⟩
  · exact (hdiffer d' (mem_of_getElem? hk)).2 htag' htag
  · exact hr (hadmits.tags tag htag owner ho)

/-- A declaration that gets its name shares it with no other one. -/
theorem AllWait.getsName (hname : GetsName options m.units.length p d) :
    (∀ d' ∈ us, d'.name ≠ d.name) ∧ p.names.get? d.name = m.findUnit? d.name := by
  have hne : ∀ d' ∈ us, d'.name ≠ d.name := by
    intro d' hd' heq
    obtain ⟨k, hk⟩ := mem_iff_getElem?.mp hd'
    have := (hname _ (h.names.late hk (mem_singleton.mpr heq.symm))).1
    omega
  exact ⟨hne, h.names.early fun d' hd' hmem => hne d' hd' (mem_singleton.mp hmem).symm⟩

/-- One more declaration waits once it has its name and its tags. -/
theorem AllWait.concat (hdiffer : ∀ d' ∈ us, Differ d' d)
    (hprevious : p.names.get? d.name = m.findUnit? d.name)
    (howners : ∀ tag, owners.get? tag =
      if tag ∈ d.tags then some p.units.length else p.tags.get? tag) :
    AllWait options m ds (us ++ [d]) (p.enter options d owners .pending)
      { pending := todo.pending ++ [(p.units.length, d)]
        aliases := todo.aliases ++ pairOf options p.units.length (p.names.get? d.name) } := by
  rw [h.length] at howners ⊢
  constructor
  case units =>
    rw [map_append, ← List.append_assoc, ← h.units, Progress.enter, hprevious]
    rfl
  case states =>
    rw [map_append, ← List.append_assoc, ← h.states]
    rfl
  case names =>
    refine h.names.concat (fun key => ?_) fun d' hd' key hkey hkey' => ?_
    · rw [Progress.enter, h.length]
      by_cases hkey : key = d.name
      · simp [hkey]
      · simp [hkey, Ne.symm hkey]
    · rw [mem_singleton] at hkey hkey'
      exact (hdiffer d' hd').1 (hkey.symm.trans hkey')
  case tags => exact h.tags.concat howners fun d' hd' => (hdiffer d' hd').2
  case pending =>
    intro i d'
    rw [mem_append, h.pending, mem_singleton, Prod.mk.injEq]
    simp only [getElem?_append_singleton_iff, and_or_left, exists_or]
    refine or_congr Iff.rfl ⟨?_, ?_⟩
    · rintro ⟨rfl, rfl⟩
      exact ⟨_, rfl, rfl, rfl⟩
    · rintro ⟨k, rfl, rfl, rfl⟩
      exact ⟨rfl, rfl⟩
  case nodup =>
    rw [map_append, nodup_append]
    refine ⟨h.nodup, nodup_singleton _, ?_⟩
    rintro i hi _ hj rfl
    obtain ⟨⟨_, d'⟩, hmem, rfl⟩ := mem_map.mp hi
    obtain ⟨k, heq, hk⟩ := (h.pending _ d').mp hmem
    have hlt := lt_of_getElem? hk
    have : _ = m.units.length + us.length := mem_singleton.mp hj
    omega
  case aliases => rw [aliasesOf_concat, h.aliases, hprevious]
  case diagnostics => exact h.diagnostics

/-- **One more declaration is accepted exactly if it differs from the others and fits the
model.** If not, an error is reported. -/
theorem AllWait.declares (hd : Declares options m.units.length p todo d q todo') :
    (((∀ d' ∈ us, Differ d' d) ∧ Admits options m d) ∧ AllWait options m ds (us ++ [d]) q todo') ∨
      ¬ ((∀ d' ∈ us, Differ d' d) ∧ Admits options m d) ∧ q.diagnostics.hasErrors = true := by
  have herror (e : UnitError) :
      (p.diagnostics.push (unitError d.span e)).hasErrors = true := by
    rw [Diagnostics.hasErrors_push]
    exact Bool.or_true _
  cases hd with
  | refused e hp hlate =>
    refine .inr ⟨fun ⟨hdiffer, hadmits⟩ => ?_, herror e⟩
    rcases (h.names _ _).mp hp with ⟨k, d', hk, hmem, -⟩ | ⟨-, hfind⟩
    · exact (hdiffer d' (mem_of_getElem? hk)).1 (mem_singleton.mp hmem).symm
    · have hpolicy := hlate.resolve_left (Nat.not_le.mpr (Model.getLast?_places_lt hfind))
      rw [hadmits.name hpolicy] at hfind
      cases hfind
  | clashes e hname htag howner hother _ =>
    exact .inr ⟨h.not_free htag howner ((h.getsName hname).2 ▸ hother), herror e⟩
  | accepted hname howners hfree =>
    obtain ⟨hne, hprevious⟩ := h.getsName hname
    have hpolicy (hreject : options.redeclaration = .reject) : m.findUnit? d.name = none := by
      rw [← hprevious]
      exact Option.eq_none_iff_forall_ne_some.mpr fun _ hp => (hname _ hp).2 hreject
    have hadmitted := h.free hne hpolicy (hprevious ▸ hfree)
    exact .inl ⟨hadmitted, h.concat hadmitted.1 hprevious howners⟩

theorem AllWait.unit (hk : us[k]? = some d) :
    p.units[m.units.length + k]? = some (fresh options d (redeclares options m d)) := by
  rw [h.units, getElem?_append_right (Nat.le_add_right _ _), Nat.add_sub_cancel_left,
    getElem?_map, hk]
  rfl

theorem AllWait.state (hk : us[k]? = some d) : p.states[m.units.length + k]? = some .pending := by
  have hlen : (start m ds).states.length = m.units.length := length_map ..
  rw [h.states, ← hlen, getElem?_append_right (Nat.le_add_right _ _), Nat.add_sub_cancel_left,
    getElem?_map, hk]
  rfl

theorem AllWait.ready : Ready options p todo.pending where
  nodup := h.nodup
  pending i d hmem := by
    obtain ⟨k, rfl, hk⟩ := (h.pending i d).mp hmem
    exact h.state hk
  kind i d hmem := by
    obtain ⟨k, rfl, hk⟩ := (h.pending i d).mp hmem
    rw [h.unit hk]
    rfl
  length := h.length_states
  names_lt name i hi := by
    rw [h.length]
    rcases (h.names name i).mp hi with ⟨k, d, hk, -, rfl⟩ | ⟨-, hi⟩
    · exact Nat.add_lt_add_left (lt_of_getElem? hk) _
    · exact Nat.lt_of_lt_of_le (Model.getLast?_places_lt hi) (Nat.le_add_right _ _)
  listed i hi := by
    have hlen : (start m ds).states.length = m.units.length := length_map ..
    rw [h.states] at hi
    by_cases hlt : i < m.units.length
    · rw [getElem?_append_left (hlen.symm ▸ hlt)] at hi
      exact absurd hi (states_start_ne_pending m ds i)
    · obtain ⟨k, rfl⟩ := Nat.exists_eq_add_of_le (Nat.le_of_not_lt hlt)
      rw [← hlen, getElem?_append_right (Nat.le_add_right _ _), Nat.add_sub_cancel_left,
        getElem?_map] at hi
      obtain ⟨d, hk, -⟩ := Option.map_eq_some_iff.mp hi
      exact ⟨d, (h.pending _ d).mpr ⟨k, rfl, hk⟩⟩

end AllWait

/-! ### All declarations -/

/-- The declarations differ and fit the model. -/
structure AllAdmitted (options : Options) (m : Model) (us : List UnitDecl) : Prop where
  differ : us.Pairwise Differ
  admits : ∀ d ∈ us, Admits options m d

theorem allAdmitted_concat_iff :
    AllAdmitted options m (us ++ [d]) ↔
      AllAdmitted options m us ∧ (∀ d' ∈ us, Differ d' d) ∧ Admits options m d := by
  constructor
  · rintro ⟨hdiffer, hadmits⟩
    obtain ⟨hus, -, hd⟩ := pairwise_append.mp hdiffer
    refine ⟨⟨hus, fun d' hd' => hadmits d' (mem_append_left _ hd')⟩, fun d' hd' => ?_, ?_⟩
    · exact hd d' hd' d (mem_singleton_self d)
    · exact hadmits d (mem_append_right _ (mem_singleton_self d))
  · rintro ⟨⟨hus, hadmits⟩, hd, hadmit⟩
    refine ⟨pairwise_append.mpr ⟨hus, pairwise_singleton .., ?_⟩, fun d' hd' => ?_⟩
    · intro d' hd' _ hmem
      rw [mem_singleton.mp hmem]
      exact hd d' hd'
    · rcases mem_append.mp hd' with hd' | hd'
      · exact hadmits d' hd'
      · rw [mem_singleton.mp hd']
        exact hadmit

theorem AllAdmitted.of_append (h : AllAdmitted options m (us ++ vs)) : AllAdmitted options m us :=
  ⟨(pairwise_append.mp h.differ).1, fun d hd => h.admits d (mem_append_left _ hd)⟩

theorem Declares.length_states (h : Declares options late p todo d q todo')
    (hlen : p.states.length = p.units.length) : q.states.length = q.units.length := by
  obtain ⟨redeclared, hu⟩ := h.units
  rcases h.states with ⟨hs, -⟩ | ⟨e, hs, -⟩
  all_goals
    rw [hs, hu, length_append, length_append, hlen]
    rfl

theorem hasErrors_declareUnits (us : List UnitDecl) (hlen : p.states.length = p.units.length)
    (h : p.diagnostics.hasErrors = true) :
    (declareUnits options late p todo us).1.diagnostics.hasErrors = true := by
  induction us generalizing p todo with
  | nil => exact h
  | cons d us ih =>
    have hd := declares_declareUnit options late todo d hlen
    have herror : (declareUnit options late p todo d).1.diagnostics.hasErrors = true := by
      rcases hd.states with ⟨-, heq, -⟩ | ⟨e, -, heq, -⟩
      · rw [heq, h]
      · rw [heq, Diagnostics.hasErrors_push, h, Bool.true_or]
    exact ih (hd.length_states hlen) herror

/-- **Declarations are accepted together exactly if they differ and fit the model.** If not, an
error is reported. -/
theorem declareUnits_cases (us : List UnitDecl) (h : AllWait options m ds done p todo)
    (hdone : AllAdmitted options m done) :
    (AllAdmitted options m (done ++ us) ∧
        AllWait options m ds (done ++ us) (declareUnits options m.units.length p todo us).1
          (declareUnits options m.units.length p todo us).2) ∨
      ¬ AllAdmitted options m (done ++ us) ∧
        (declareUnits options m.units.length p todo us).1.diagnostics.hasErrors = true := by
  induction us generalizing done p todo with
  | nil =>
    rw [append_nil]
    exact .inl ⟨hdone, h⟩
  | cons d us ih =>
    rw [append_cons]
    have hdeclares := declares_declareUnit options m.units.length todo d h.length_states
    rcases h.declares hdeclares with ⟨hd, hnext⟩ | ⟨hd, he⟩
    · exact ih hnext (allAdmitted_concat_iff.mpr ⟨hdone, hd⟩)
    · refine .inr ⟨fun hall => hd (allAdmitted_concat_iff.mp hall.of_append).2, ?_⟩
      exact hasErrors_declareUnits us (hdeclares.length_states h.length_states) he

end Elaborate

end Quantity
