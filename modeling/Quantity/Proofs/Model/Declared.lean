import Quantity.Model.Elaborate
import Quantity.Proofs.Model.Places
import Mathlib.Data.List.Nodup

/-!
# Declaring units

Before any unit is encoded, all of them are declared in turn: each gets a place behind the
earlier ones, and either waits to be encoded or is refused because of its name or its tags.
`declares_declareUnit` says what one declaration does, and `declared_declareUnits` what holds
after all of them.
-/

namespace Quantity.Elaborate

open List

/-! ### Tags -/

/-- The first tag ends the attempt if it belongs to another unit, and is claimed if not. -/
theorem claimTags_cons (p : Progress) (i : Nat) (redeclares : Option Nat) (tag : String)
    (tags : List String) :
    (∃ owner, p.tags.get? tag = some owner ∧ owner ≠ i ∧ redeclares ≠ some owner ∧
        p.claimTags i redeclares (tag :: tags) = (p, some (tag, owner))) ∨
      (∀ owner, p.tags.get? tag = some owner → owner = i ∨ redeclares = some owner) ∧
        p.claimTags i redeclares (tag :: tags) =
          Progress.claimTags { p with tags := p.tags.insert tag i } i redeclares tags := by
  rw [Progress.claimTags]
  cases ho : p.tags.get? tag with
  | none => exact .inr ⟨nofun, rfl⟩
  | some owner =>
    simp only
    split_ifs with hclash
    · exact .inl ⟨owner, rfl, hclash.1, Ne.symm hclash.2, rfl⟩
    · refine .inr ⟨fun other hother => ?_, rfl⟩
      cases hother
      tauto

/-- Where tags lead after an attempt to claim some: where they did, or to the unit at the place,
which takes them from no unit but the one it redeclares. -/
def Grants (tags : Table) (i : Nat) (redeclares : Option Nat) (owners : Table) : Prop :=
  ∀ tag, owners.get? tag = tags.get? tag ∨ owners.get? tag = some i ∧
    ∀ owner, tags.get? tag = some owner → owner = i ∨ redeclares = some owner

theorem Grants.insert (h : Grants (tags.insert tag i) i redeclares owners)
    (hfree : ∀ owner, tags.get? tag = some owner → owner = i ∨ redeclares = some owner) :
    Grants tags i redeclares owners := by
  intro other
  by_cases htag : tag = other
  · subst htag
    refine .inr ⟨?_, hfree⟩
    rcases h tag with heq | ⟨heq, -⟩
    · rw [heq, Table.get?_insert, if_pos rfl]
    · exact heq
  · have := h other
    rwa [Table.get?_insert, if_neg htag] at this

/-- Tags are claimed until one belongs to another unit. -/
theorem claimTags_cases (p : Progress) (i : Nat) (redeclares : Option Nat) (tags : List String) :
    (∃ owners, p.claimTags i redeclares tags = ({ p with tags := owners }, none) ∧
        (∀ tag, owners.get? tag = if tag ∈ tags then some i else p.tags.get? tag) ∧
        ∀ tag ∈ tags, ∀ owner, p.tags.get? tag = some owner →
          owner = i ∨ redeclares = some owner) ∨
      ∃ tag ∈ tags, ∃ owner owners, p.tags.get? tag = some owner ∧ owner ≠ i ∧
        redeclares ≠ some owner ∧ Grants p.tags i redeclares owners ∧
        p.claimTags i redeclares tags = ({ p with tags := owners }, some (tag, owner)) := by
  induction tags generalizing p with
  | nil => exact .inl ⟨p.tags, rfl, fun _ => rfl, nofun⟩
  | cons tag tags ih =>
    rcases claimTags_cons p i redeclares tag tags with
      ⟨owner, ho, hi, hr, hclaim⟩ | ⟨hfree, hclaim⟩
    · exact .inr ⟨tag, mem_cons_self .., owner, p.tags, ho, hi, hr, fun _ => .inl rfl, hclaim⟩
    · rw [hclaim]
      rcases ih { p with tags := p.tags.insert tag i } with
        ⟨owners, heq, howners, hall⟩ | ⟨other, hmem, owner, owners, ho, hi, hr, hgrants, heq⟩
      · refine .inl ⟨owners, heq, fun other => ?_, ?_⟩
        · rw [howners]
          by_cases htag : tag = other
          · simp [htag]
          · simp [htag, Ne.symm htag]
        · intro other hmem owner ho
          by_cases htag : other = tag
          · exact hfree owner (htag ▸ ho)
          · refine hall other ((mem_cons.mp hmem).resolve_left htag) owner ?_
            rw [Table.get?_insert, if_neg (Ne.symm htag)]
            exact ho
      · rw [Table.get?_insert] at ho
        split_ifs at ho
        · exact absurd (Option.some.inj ho).symm hi
        · exact .inr ⟨other, mem_cons_of_mem _ hmem, owner, owners, ho, hi, hr,
            hgrants.insert hfree, heq⟩

/-! ### One declaration -/

/-- The unit of a declaration before it is encoded. -/
def fresh (options : Options) (d : UnitDecl) (redeclared : Bool) : UnitEntry :=
  { name := d.name
    origin := .declared d.span
    kind := d.kind.getD options.kind
    dimension := .plain
    factor := .ofNumeral (d.kind.getD options.kind).one
    redeclared }

/-- Whether a unit begins a family of its own, since it takes the name of another one. -/
def marked (options : Options) (previous : Option Nat) : Bool :=
  options.redeclaration = .newFamily && previous.isSome

/-- The unit at a place and the one whose name it takes, if they are to be compared. -/
def pairOf (options : Options) (i : Nat) (previous : Option Nat) : List (Nat × Nat) :=
  if options.redeclaration = .sameUnit then (previous.map (i, ·)).toList else []

theorem mem_pairOf : a ∈ pairOf options i previous ↔
    options.redeclaration = .sameUnit ∧ a.1 = i ∧ previous = some a.2 := by
  unfold pairOf
  split_ifs with hpolicy
  · rw [Option.mem_toList, Option.map_eq_some_iff]
    constructor
    · rintro ⟨j, rfl, rfl⟩
      exact ⟨hpolicy, rfl, rfl⟩
    · rintro ⟨-, rfl, rfl⟩
      exact ⟨_, rfl, rfl⟩
  · exact iff_of_false nofun fun h => hpolicy h.1

/-- The declaration gets its name: no late unit has it, and if an earlier one has it the policy lets
it be used again. -/
def GetsName (options : Options) (late : Nat) (p : Progress) (d : UnitDecl) : Prop :=
  ∀ previous, p.names.get? d.name = some previous →
    previous < late ∧ options.redeclaration ≠ .reject

/-- A unit is added that gets its name. -/
def Progress.enter (p : Progress) (options : Options) (d : UnitDecl) (tags : Table)
    (state : UnitState) : Progress :=
  { p with
    units := p.units ++ [fresh options d (marked options (p.names.get? d.name))]
    states := p.states ++ [state]
    names := p.names.insert d.name p.units.length
    tags }

/-- **What happens to a unit when it is declared**: it waits to be encoded, or is refused for its
name or for a tag and a reason is reported. -/
inductive Declares (options : Options) (late : Nat) (p : Progress) (todo : Todo) (d : UnitDecl) :
    Progress → Todo → Prop where
  /-- Its name is taken. -/
  | refused {previous : Nat} (e : UnitError) (hp : p.names.get? d.name = some previous)
      (hlate : late ≤ previous ∨ options.redeclaration = .reject) :
      Declares options late p todo d
        { p with
          units := p.units ++ [fresh options d false]
          states := p.states ++ [.failed (unitError d.span e)]
          diagnostics := p.diagnostics.push (unitError d.span e) }
        todo
  /-- It gets its name, but a tag is that of another unit. -/
  | clashes {tag : String} {owner : Nat} {owners : Table} (e : UnitError)
      (hname : GetsName options late p d) (htag : tag ∈ d.tags)
      (howner : p.tags.get? tag = some owner) (hother : p.names.get? d.name ≠ some owner)
      (hgrants : Grants p.tags p.units.length (p.names.get? d.name) owners) :
      Declares options late p todo d
        { p.enter options d owners (.failed (unitError d.span e)) with
          diagnostics := p.diagnostics.push (unitError d.span e) }
        { todo with
          aliases := todo.aliases ++ pairOf options p.units.length (p.names.get? d.name) }
  /-- It waits. -/
  | accepted {owners : Table} (hname : GetsName options late p d)
      (howners : ∀ tag, owners.get? tag =
        if tag ∈ d.tags then some p.units.length else p.tags.get? tag)
      (hfree : ∀ tag ∈ d.tags, ∀ owner, p.tags.get? tag = some owner →
        owner = p.units.length ∨ p.names.get? d.name = some owner) :
      Declares options late p todo d (p.enter options d owners .pending)
        { pending := todo.pending ++ [(p.units.length, d)]
          aliases := todo.aliases ++ pairOf options p.units.length (p.names.get? d.name) }

theorem set_concat {states : List UnitState} (h : states.length = n) (state : UnitState) :
    (states ++ [UnitState.pending]).set n state = states ++ [state] := by
  rw [← h, set_append_right _ _ (Nat.le_refl _), Nat.sub_self]
  rfl

/-- A declaration that gets its name goes on to claim tags. -/
theorem declareUnit_eq (todo : Todo) (h : GetsName options late p d) :
    declareUnit options late p todo d =
      claim
        { p with
          units := p.units ++ [fresh options d (marked options (p.names.get? d.name))]
          states := p.states ++ [.pending] }
        { todo with
          aliases := todo.aliases ++ pairOf options p.units.length (p.names.get? d.name) }
        p.units.length (p.names.get? d.name) d := by
  unfold declareUnit
  cases hp : p.names.get? d.name with
  | none => simp [marked, pairOf, Progress.add, fresh]
  | some previous =>
    obtain ⟨hlt, hpolicy⟩ := h previous hp
    dsimp only
    rw [if_neg (Nat.not_le.mpr hlt)]
    cases hredeclaration : options.redeclaration with
    | reject => exact absurd hredeclaration hpolicy
    | newFamily =>
      have hmodify : (p.units ++ [fresh options d false]).modify p.units.length
          (fun u => { u with redeclared := true }) = p.units ++ [fresh options d true] :=
        modifyTailIdx_add _ 0 p.units _
      have hmarked : marked options (some previous) = true := by simp [marked, hredeclaration]
      rw [hmarked, ← hmodify]
      simp [pairOf, hredeclaration, Progress.add, Progress.modifyUnit, fresh]
    | sameUnit => simp [marked, pairOf, Progress.add, fresh, hredeclaration]

/-- **What one declaration does**: a unit is added, which waits or is refused. -/
theorem declares_declareUnit (options : Options) (late : Nat) (todo : Todo) (d : UnitDecl)
    (hlen : p.states.length = p.units.length) :
    Declares options late p todo d (declareUnit options late p todo d).1
      (declareUnit options late p todo d).2 := by
  by_cases h : GetsName options late p d
  · rw [declareUnit_eq todo h]
    unfold claim
    dsimp only
    rcases claimTags_cases { p with
        units := p.units ++ [fresh options d (marked options (p.names.get? d.name))]
        states := p.states ++ [.pending]
        names := p.names.insert d.name p.units.length } p.units.length (p.names.get? d.name)
        d.tags with
      ⟨owners, hclaim, howners, hfree⟩ | ⟨tag, htag, owner, owners, ho, -, hother, hgrants, hclaim⟩
    · rw [hclaim]
      exact .accepted h howners hfree
    · rw [hclaim]
      unfold Progress.fail
      dsimp only
      rw [set_concat hlen]
      exact .clashes _ h htag ho hother hgrants
  · have hrefused (e : UnitError) (previous : Nat) (hp : p.names.get? d.name = some previous)
        (hlate : late ≤ previous ∨ options.redeclaration = .reject) :
        Declares options late p todo d
          ((p.add (d.kind.getD options.kind) d).fail p.units.length (unitError d.span e)) todo := by
      unfold Progress.fail Progress.add
      dsimp only
      rw [set_concat hlen]
      exact .refused e hp hlate
    unfold declareUnit
    cases hp : p.names.get? d.name with
    | none => exact absurd (fun previous hprevious => by rw [hp] at hprevious; cases hprevious) h
    | some previous =>
      dsimp only
      split_ifs with hlate
      · exact hrefused _ previous hp (.inl hlate)
      · have hpolicy : options.redeclaration = .reject := by
          by_contra hpolicy
          refine h fun previous' hprevious => ?_
          rw [hp] at hprevious
          cases hprevious
          exact ⟨Nat.lt_of_not_le hlate, hpolicy⟩
        rw [hpolicy]
        exact hrefused _ previous hp (.inr hpolicy)

section Declares

variable {options : Options} {late : Nat} {p q : Progress} {todo todo' : Todo} {d : UnitDecl}

variable (h : Declares options late p todo d q todo')

include h

theorem Declares.units : ∃ redeclared, q.units = p.units ++ [fresh options d redeclared] := by
  cases h <;> exact ⟨_, rfl⟩

theorem Declares.states :
    q.states = p.states ++ [.pending] ∧ q.diagnostics = p.diagnostics ∧
        todo'.pending = todo.pending ++ [(p.units.length, d)] ∨
      ∃ e, q.states = p.states ++ [.failed (unitError d.span e)] ∧
        q.diagnostics = p.diagnostics.push (unitError d.span e) ∧ todo'.pending = todo.pending := by
  cases h with
  | refused e => exact .inr ⟨e, rfl, rfl, rfl⟩
  | clashes e => exact .inr ⟨e, rfl, rfl, rfl⟩
  | accepted => exact .inl ⟨rfl, rfl, rfl⟩

/-- Names and tags stay, or the declaration gets its name. -/
theorem Declares.tables :
    q.names = p.names ∧ q.tags = p.tags ∧ todo' = todo ∨
      GetsName options late p d ∧ q.names = p.names.insert d.name p.units.length ∧
        todo'.aliases = todo.aliases ++ pairOf options p.units.length (p.names.get? d.name) ∧
        Grants p.tags p.units.length (p.names.get? d.name) q.tags := by
  cases h with
  | refused => exact .inl ⟨rfl, rfl, rfl⟩
  | clashes _ hname _ _ _ hgrants => exact .inr ⟨hname, rfl, rfl, hgrants⟩
  | accepted hname howners hfree =>
    refine .inr ⟨hname, rfl, rfl, fun tag => ?_⟩
    by_cases htag : tag ∈ d.tags
    · exact .inr ⟨(howners tag).trans (if_pos htag), hfree tag htag⟩
    · exact .inl ((howners tag).trans (if_neg htag))

theorem Declares.get?_names (hi : q.names.get? name = some i) :
    p.names.get? name = some i ∨ i = p.units.length := by
  rcases h.tables with ⟨hn, -⟩ | ⟨-, hn, -⟩
  · exact .inl (hn ▸ hi)
  · rw [hn, Table.get?_insert] at hi
    split_ifs at hi
    · exact .inr (Option.some.inj hi).symm
    · exact .inl hi

end Declares

/-! ### All declarations -/

/-- **What holds once units are declared behind those of a model**: each declaration has its
place, it waits there or is refused, and the places of those that wait are listed. -/
structure Declared (options : Options) (m : Model) (units : List UnitDecl) (p : Progress)
    (todo : Todo) : Prop where
  length_units : p.units.length = m.units.length + units.length
  length_states : p.states.length = p.units.length
  names_lt : ∀ name i, p.names.get? name = some i → i < p.units.length
  early_unit : ∀ i < m.units.length, p.units[i]? = m.units[i]?
  early_state : ∀ i < m.units.length, p.states[i]? ≠ some .pending
  early_done : ∀ (i : Nat) (u : UnitEntry), m.units[i]? = some u →
    p.states[i]? = some .done → u.valid = true
  late_unit : ∀ k d, units[k]? = some d →
    ∃ redeclared, p.units[m.units.length + k]? = some (fresh options d redeclared)
  late_state : ∀ k d, units[k]? = some d →
    p.states[m.units.length + k]? = some .pending ∧ (m.units.length + k, d) ∈ todo.pending ∨
      ∃ why, p.states[m.units.length + k]? = some (.failed why)
  pending : ∀ i d, (i, d) ∈ todo.pending →
    p.states[i]? = some .pending ∧ ∃ k, i = m.units.length + k ∧ units[k]? = some d
  nodup : (todo.pending.map (·.1)).Nodup
  aliases : options.redeclaration ≠ .sameUnit → todo.aliases = []
  late_aliases : ∀ a ∈ todo.aliases, m.units.length ≤ a.1

theorem get?_foldl_names (nameOf : α → String) (xs : List α) (name : String) :
    (xs.zipIdx.foldl (fun t (x, i) => t.insert (nameOf x) i) ({} : Table)).get? name =
      (Model.places xs (nameOf · = name)).getLast? := by
  induction xs using List.reverseRecOn with
  | nil => rfl
  | append_singleton xs x ih =>
    rw [zipIdx_append, Model.places_append_singleton]
    by_cases hn : nameOf x = name
    · simp [hn]
    · simp [hn, ih]

theorem get?_start_names (m : Model) (ds : Diagnostics) (name : String) :
    (start m ds).names.get? name = m.findUnit? name :=
  get?_foldl_names UnitEntry.name m.units name

theorem states_start_ne_pending (m : Model) (ds : Diagnostics) (i : Nat) :
    (start m ds).states[i]? ≠ some .pending := by
  unfold start
  rw [getElem?_map]
  cases m.units[i]? with
  | none => exact nofun
  | some u =>
    rw [Option.map_some]
    split_ifs <;> exact nofun

theorem valid_of_states_start {i : Nat} (hu : m.units[i]? = some u)
    (hi : (start m ds).states[i]? = some .done) : u.valid = true := by
  unfold start at hi
  rw [getElem?_map, hu, Option.map_some] at hi
  by_contra hvalid
  rw [if_neg hvalid] at hi
  cases hi

theorem declared_start (options : Options) (m : Model) (ds : Diagnostics) :
    Declared options m [] (start m ds) {} where
  length_units := rfl
  length_states := by simp [start]
  names_lt name i h := Model.getLast?_places_lt (get?_start_names m ds name ▸ h)
  early_unit _ _ := rfl
  early_state i _ := states_start_ne_pending m ds i
  early_done _ _ := valid_of_states_start
  late_unit _ _ h := by cases h
  late_state _ _ h := by cases h
  pending _ _ h := by cases h
  nodup := nodup_nil
  aliases _ := rfl
  late_aliases := nofun

theorem getElem?_append_singleton_iff :
    (xs ++ [x])[k]? = some y ↔ xs[k]? = some y ∨ k = xs.length ∧ x = y := by
  constructor
  · intro h
    by_cases hk : k < xs.length
    · exact .inl (by rwa [List.getElem?_append_left hk] at h)
    · have hk' : k = xs.length := by
        have := lt_of_getElem? h
        simp at this
        omega
      subst hk'
      exact .inr ⟨rfl, by simpa using h⟩
  · rintro (h | ⟨rfl, rfl⟩)
    · rw [List.getElem?_append_left (lt_of_getElem? h), h]
    · exact getElem?_concat_length ..

section Concat

variable {options : Options} {m : Model} {units : List UnitDecl} {p q : Progress}
  {todo todo' : Todo} {d : UnitDecl}

variable (h : Declares options late p todo d q todo')

include h

theorem Declares.mem_pending (hlen : p.states.length = p.units.length)
    (hmem : (i, d') ∈ todo'.pending) :
    (i, d') ∈ todo.pending ∨ i = p.units.length ∧ d' = d ∧ q.states[i]? = some .pending := by
  rcases h.states with ⟨hs, -, ht⟩ | ⟨e, -, -, ht⟩
  · rw [ht] at hmem
    rcases mem_append.mp hmem with hmem | hmem
    · exact .inl hmem
    · cases mem_singleton.mp hmem
      refine .inr ⟨rfl, rfl, ?_⟩
      rw [hs, ← hlen]
      exact getElem?_concat_length ..
  · exact .inl (ht ▸ hmem)

theorem Declares.mem_aliases (ha : a ∈ todo'.aliases) :
    a ∈ todo.aliases ∨ options.redeclaration = .sameUnit ∧ a.1 = p.units.length := by
  rcases h.tables with ⟨-, -, rfl⟩ | ⟨-, -, heq, -⟩
  · exact .inl ha
  · rw [heq, mem_append, mem_pairOf] at ha
    exact ha.imp_right fun ⟨hpolicy, hi, _⟩ => ⟨hpolicy, hi⟩

theorem Declares.nodup_pending (hnodup : (todo.pending.map (·.1)).Nodup)
    (hlt : ∀ i d', (i, d') ∈ todo.pending → i < p.units.length) :
    (todo'.pending.map (·.1)).Nodup := by
  rcases h.states with ⟨-, -, ht⟩ | ⟨e, -, -, ht⟩
  · rw [ht, map_append, nodup_append]
    refine ⟨hnodup, nodup_singleton _, ?_⟩
    rintro i hi _ hj rfl
    obtain ⟨⟨_, d'⟩, hmem, rfl⟩ := mem_map.mp hi
    exact absurd (mem_singleton.mp hj) (Nat.ne_of_lt (hlt _ d' hmem))
  · exact ht ▸ hnodup

omit h

theorem Declared.place_lt (h : Declared options m units p todo) (hk : units[k]? = some d') :
    m.units.length + k < p.units.length := by
  have := lt_of_getElem? hk
  have := h.length_units
  omega

theorem Declared.concat (h : Declared options m units p todo)
    (hd : Declares options late p todo d q todo') : Declared options m (units ++ [d]) q todo' := by
  have hlen := h.length_units
  obtain ⟨redeclared, hu⟩ := hd.units
  obtain ⟨state, hs, hstate⟩ : ∃ state, q.states = p.states ++ [state] ∧
      (state = .pending ∧ todo'.pending = todo.pending ++ [(p.units.length, d)] ∨
        ∃ why, state = .failed why ∧ todo'.pending = todo.pending) := by
    rcases hd.states with ⟨hs, -, ht⟩ | ⟨e, hs, -, ht⟩
    · exact ⟨_, hs, .inl ⟨rfl, ht⟩⟩
    · exact ⟨_, hs, .inr ⟨_, rfl, ht⟩⟩
  have hstates : ∀ i < p.units.length, q.states[i]? = p.states[i]? := fun i hi => by
    rw [hs, List.getElem?_append_left (h.length_states ▸ hi)]
  have hunits : ∀ i < p.units.length, q.units[i]? = p.units[i]? := fun i hi => by
    rw [hu, List.getElem?_append_left hi]
  constructor
  case length_units =>
    simp only [hu, length_append, length_singleton]
    omega
  case length_states =>
    simp only [hs, hu, length_append, length_singleton, h.length_states]
  case names_lt =>
    intro name i hi
    rw [hu, length_append]
    rcases hd.get?_names hi with hi | rfl
    · exact Nat.lt_succ_of_lt (h.names_lt name i hi)
    · exact Nat.lt_succ_self _
  case early_unit =>
    intro i hi
    rw [hunits i (by omega), h.early_unit i hi]
  case early_state =>
    intro i hi
    rw [hstates i (by omega)]
    exact h.early_state i hi
  case early_done =>
    intro i u hu' hi
    have hlt := lt_of_getElem? hu'
    rw [hstates i (by omega)] at hi
    exact h.early_done i u hu' hi
  case late_unit =>
    intro k d' hk
    rcases getElem?_append_singleton_iff.mp hk with hk | ⟨rfl, rfl⟩
    · rw [hunits _ (h.place_lt hk)]
      exact h.late_unit k d' hk
    · exact ⟨redeclared, by rw [hu, ← hlen, getElem?_concat_length]⟩
  case late_state =>
    intro k d' hk
    rcases getElem?_append_singleton_iff.mp hk with hk | ⟨rfl, rfl⟩
    · rw [hstates _ (h.place_lt hk)]
      refine (h.late_state k d' hk).imp_left (And.imp_right fun hmem => ?_)
      rcases hstate with ⟨-, ht⟩ | ⟨_, -, ht⟩
      · exact ht ▸ mem_append_left _ hmem
      · exact ht ▸ hmem
    · rw [← hlen, hs, ← h.length_states, getElem?_concat_length]
      rcases hstate with ⟨rfl, ht⟩ | ⟨why, rfl, -⟩
      · exact .inl ⟨rfl, by rw [ht, h.length_states]; exact mem_concat_self⟩
      · exact .inr ⟨why, rfl⟩
  case pending =>
    intro i d' hmem
    rcases hd.mem_pending h.length_states hmem with hmem | ⟨rfl, rfl, hi⟩
    · obtain ⟨hi, k, rfl, hk⟩ := h.pending i d' hmem
      exact ⟨hstates _ (h.place_lt hk) ▸ hi, k, rfl, getElem?_append_singleton_iff.mpr (.inl hk)⟩
    · exact ⟨hi, units.length, hlen, getElem?_concat_length ..⟩
  case nodup =>
    refine hd.nodup_pending h.nodup fun i d' hmem => ?_
    obtain ⟨-, k, rfl, hk⟩ := h.pending i d' hmem
    exact h.place_lt hk
  case aliases =>
    intro hp
    refine eq_nil_iff_forall_not_mem.mpr fun a hmem => ?_
    rcases hd.mem_aliases hmem with hmem | ⟨hpolicy, -⟩
    · rw [h.aliases hp] at hmem
      cases hmem
    · exact hp hpolicy
  case late_aliases =>
    intro a hmem
    rcases hd.mem_aliases hmem with hmem | ⟨-, hi⟩
    · exact h.late_aliases a hmem
    · omega

end Concat

/-- What is left when the units of a text are declared, before any of them is encoded. -/
abbrev declareAll (options : Options) (m : Model) (ds : Diagnostics) (units : List UnitDecl) :
    Progress × Todo := declareUnits options m.lateUnits (start m ds) {} units

/-- **All declarations have their place, and wait there or are refused.** -/
theorem declared_declareUnits (late : Nat) (units : List UnitDecl)
    (h : Declared options m done p todo) :
    Declared options m (done ++ units) (declareUnits options late p todo units).1
      (declareUnits options late p todo units).2 := by
  induction units generalizing done p todo with
  | nil => exact (append_nil done).symm ▸ h
  | cons d units ih =>
    rw [append_cons]
    exact ih (h.concat (declares_declareUnit options late todo d h.length_states))

end Quantity.Elaborate
