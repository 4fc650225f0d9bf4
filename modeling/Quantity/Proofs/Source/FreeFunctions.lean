import Quantity.Proofs.Source.Hosts

/-!
# The names of free functions

A free function is named by the words of its operands, without their modules. Late operations differ
in their operator or in one of their sides (`Viewed.nodup_freeOperations`), but the words may be the
same: units of two modules may share a name, two names may have the same words, and the word for an
operator may be part of a name. `late_functionNames_nodup_iff` says that this is all that can go
wrong.
-/

namespace Quantity

open List

namespace Source

/-! ### Words -/

/-- The words of a name, as they are spelled in the names of files and functions. -/
def nameParts (name : String) : List (List Char) := (Text.snakeCase name).toList.splitOn '_'

def operatorPart (operator : Operator) : List Char := (operatorTrait operator).method.toList

/-- The words of the function for an operation. -/
def functionWords (o : OperationView) : List (List Char) :=
  nameParts o.lhs.name ++ operatorPart o.operator :: nameParts o.rhs.name

/-- No word of the name stands for an operator. -/
def IsPlain (name : String) : Prop := ∀ operator, operatorPart operator ∉ nameParts name

instance (name : String) : Decidable (IsPlain name) :=
  decidable_of_iff
    (operatorPart .product ∉ nameParts name ∧ operatorPart .quotient ∉ nameParts name)
    ⟨fun h operator => by cases operator <;> [exact h.1; exact h.2], fun h => ⟨h _, h _⟩⟩

theorem splitOn_inj {xs ys : List Char} : xs.splitOn x = ys.splitOn x ↔ xs = ys := by
  constructor
  · intro h
    have hxs : [x].intercalate (xs.splitOn x) = xs := intercalate_splitOn x
    rw [← hxs, h, intercalate_splitOn]
  · exact congrArg _

theorem nameParts_inj :
    nameParts name = nameParts other ↔ Text.snakeCase name = Text.snakeCase other :=
  splitOn_inj.trans String.toList_inj

theorem operatorPart_inj : ∀ {operator other : Operator},
    operatorPart operator = operatorPart other ↔ operator = other
  | .product, .product | .quotient, .quotient => iff_of_true rfl rfl
  | .product, .quotient | .quotient, .product => iff_of_false (by decide) (by decide)

/-- Lists that are equal are divided alike, by words that the first parts do not have. -/
theorem append_cons_inj (hx : y ∉ xs) (hy : x ∉ ys) :
    xs ++ x :: xs' = ys ++ y :: ys' ↔ xs = ys ∧ x = y ∧ xs' = ys' := by
  induction xs generalizing ys with
  | nil =>
    cases ys with
    | nil => simp
    | cons z ys =>
      have hne : x ≠ z := fun heq => hy (heq ▸ mem_cons_self ..)
      simp [hne]
  | cons w xs ih =>
    cases ys with
    | nil =>
      have hne : w ≠ y := fun heq => hx (heq ▸ mem_cons_self ..)
      simp [hne]
    | cons z ys =>
      rw [cons_append, cons_append, List.cons.injEq, List.cons.injEq,
        ih (mt (mem_cons_of_mem _) hx) (mt (mem_cons_of_mem _) hy), and_assoc]

variable {o p : OperationView}

theorem splitOn_functionName (o : OperationView) :
    (functionName o).toList.splitOn '_' = functionWords o := by
  have hname : (functionName o).toList = (Text.snakeCase o.lhs.name).toList ++
      '_' :: (operatorPart o.operator ++ '_' :: (Text.snakeCase o.rhs.name).toList) := by
    simp [functionName, operatorPart]
  have hoperator : (operatorPart o.operator).splitOn '_' = [operatorPart o.operator] := by
    cases o.operator <;> decide
  rw [hname, splitOn_append_cons_self, splitOn_append_cons_self, hoperator,
    singleton_append, functionWords, nameParts, nameParts]

/-- **Functions have the same name exactly if they have the same words.** -/
theorem functionName_eq_iff :
    functionName o = functionName p ↔ functionWords o = functionWords p := by
  rw [← splitOn_functionName, ← splitOn_functionName, splitOn_inj, String.toList_inj]

/-- **The words tell the sides apart**, if no left side has a word for an operator. -/
theorem functionName_eq_iff_of_isPlain (ho : IsPlain o.lhs.name) (hp : IsPlain p.lhs.name) :
    functionName o = functionName p ↔ o.operator = p.operator ∧
      Text.snakeCase o.lhs.name = Text.snakeCase p.lhs.name ∧
      Text.snakeCase o.rhs.name = Text.snakeCase p.rhs.name := by
  rw [functionName_eq_iff, functionWords, functionWords, append_cons_inj (ho _) (hp _),
    nameParts_inj, nameParts_inj, operatorPart_inj]
  exact and_left_comm

theorem identifier_functionName (o : OperationView) :
    identifier (functionName o) = functionName o := by
  have hwords : ∀ word ∈ reservedWords, '_' ∉ word.toList := by decide +kernel
  refine if_neg fun hreserved => hwords _ (contains_iff_mem.mp hreserved) ?_
  simp [functionName]

variable {v : View}

theorem name_of_freeFunction (h : freeFunction v o = .ok f) : f.name = functionName o := by
  obtain ⟨body, -, h⟩ := bind_eq_ok_iff.mp h
  rw [← Except.ok.inj h]

theorem map_identifier_functions
    (h : List.Forall₂ (fun o f => freeFunction v o = .ok f) (freeOperations v) functions) :
    (functions.map fun f => identifier f.name) = (freeOperations v).map functionName := by
  rw [eq_comm, ← forall₂_eq_eq_eq, forall₂_map_left_iff, forall₂_map_right_iff]
  refine h.imp fun o f hf => ?_
  rw [name_of_freeFunction hf, identifier_functionName]

end Source

namespace Model

open Source

variable {m : Model} {s : Selection} {o p : Operation} {x y : Operand}

/-! ### Sides -/

def kinds : List NumericKind := [.double, .float, .decimal]

theorem mem_kinds (kind : NumericKind) : kind ∈ kinds := by cases kind <;> decide

theorem snakeCase_typeName_inj {kind other : NumericKind}
    (h : Text.snakeCase kind.typeName = Text.snakeCase other.typeName) : kind = other := by
  have hdistinct : (kinds.map fun kind => Text.snakeCase kind.typeName).Nodup := by decide +kernel
  exact inj_on_of_nodup_map hdistinct (mem_kinds kind) (mem_kinds other) h

/-- A unit that no chosen unit hosts is hidden, and so is what else is combined with it. -/
theorem unit_eq_false_of_hostedBy (ho : o ∈ m.hostedBy s none)
    (hi : o.lhs = .unit i ∨ o.rhs = .unit i) : s.unit i = false := by
  have hnone := Selection.host?_eq_none_iff.mp (of_decide_eq_true (mem_filter.mp ho).2) i
  by_contra hs
  rw [Bool.not_eq_false] at hs
  exact hi.elim (hnone hs).1 (hnone hs).2

/-- **Hidden operands look different**: units have their modules. -/
theorem Legible.viewOperand_inj (h : Legible m s)
    (hx : ∀ i, x = .unit i → s.unit i = false ∧ i < m.units.length)
    (hy : ∀ i, y = .unit i → s.unit i = false ∧ i < m.units.length)
    (hxy : m.viewOperand s x = m.viewOperand s y) : x = y := by
  cases x with
  | number k =>
    cases y with
    | number l =>
      have hname : k.typeName = l.typeName := congrArg OperandView.name hxy
      exact congrArg _ (snakeCase_typeName_inj (congrArg Text.snakeCase hname))
    | unit j => cases congrArg OperandView.number hxy
  | unit i =>
    cases y with
    | number l => cases congrArg OperandView.number hxy
    | unit j =>
      obtain ⟨hi, hilt⟩ := hx i rfl
      obtain ⟨hj, hjlt⟩ := hy j rfl
      have hu := getElem?_eq_getElem hilt
      have hw := getElem?_eq_getElem hjlt
      rw [viewOperand, viewOperand, unitName?, unitName?, hu, hw, hi, hj] at hxy
      injection hxy with hname hmodule
      exact congrArg _ (h.hidden i j _ _ hu hw hi hj hmodule hname)

section Viewed

variable (h : Viewed m s)
include h

theorem Viewed.hidden_of_hostedBy (ho : o ∈ m.hostedBy s none) (hx : x = o.lhs ∨ x = o.rhs)
    (i : Nat) (hi : x = .unit i) : s.unit i = false ∧ i < m.units.length := by
  have hmem : .unit i ∈ o.operands := by
    subst hi
    rcases hx with hx | hx
    · exact hx ▸ mem_cons_self ..
    · exact hx ▸ mem_cons_of_mem _ (mem_cons_self ..)
  obtain ⟨u, hu⟩ := h.exists_unit (mem_filter.mp ho).1 hmem
  refine ⟨unit_eq_false_of_hostedBy ho ?_, lt_of_getElem? hu⟩
  rw [← hi]
  exact hx.imp Eq.symm Eq.symm

/-- The operations of a model differ in their operators or sides. -/
theorem Viewed.pairwise_operations : m.operations.Pairwise Apart := by
  have hlinked : m.Linked := by
    cases h with
    | full hc hok => exact (enlarged_of_extend hc hok).linked
    | late _ hc hok => exact (enlarged_of_extend hc hok).linked
  rw [← hlinked.operationTable_eq]
  exact pairwise_operationTable

/-- **No free function is for the same sides as another one**, unless by another operator. -/
theorem Viewed.nodup_freeOperations :
    ((freeOperations (m.view s)).map fun o => (o.operator, o.lhs, o.rhs)).Nodup := by
  rw [h.freeOperations_view, map_map, List.Nodup, pairwise_map]
  refine ((h.pairwise_operations.filter _).filter _).imp_of_mem fun {o p} ho hp hapart heq => ?_
  obtain ⟨hoperator, hsides⟩ := Prod.mk.inj heq
  obtain ⟨hlhs, hrhs⟩ := Prod.mk.inj hsides
  refine hapart ⟨hoperator, ?_, ?_⟩
  · exact h.legible.viewOperand_inj (h.hidden_of_hostedBy ho (.inl rfl))
      (h.hidden_of_hostedBy hp (.inl rfl)) hlhs
  · exact h.legible.viewOperand_inj (h.hidden_of_hostedBy ho (.inr rfl))
      (h.hidden_of_hostedBy hp (.inr rfl)) hrhs

end Viewed

/-- Entries that differ in their keys differ in their names if names tell keys apart. -/
theorem nodup_map_iff_of_nodup_map {xs : List α} (hkeys : (xs.map key).Nodup) (name : α → γ) :
    (xs.map name).Nodup ↔ ∀ x ∈ xs, ∀ y ∈ xs, name x = name y → key x = key y := by
  constructor
  · intro hnames x hx y hy hxy
    rw [inj_on_of_nodup_map hnames hx hy hxy]
  · intro htold
    refine List.Nodup.map_on (fun x hx y hy hxy => ?_) (.of_map key hkeys)
    exact inj_on_of_nodup_map hkeys hx hy (htold x hx y hy hxy)

/-! ### Late functions -/

/-- **Words tell the units of a model apart**: no two units have the same words, none has a word for
an operator, and none has the words of a type of numbers. -/
structure ToldApart (m : Model) : Prop where
  words : (m.units.map fun u => Text.snakeCase u.name).Nodup
  plain : ∀ u ∈ m.units, IsPlain u.name
  numbers : ∀ u ∈ m.units, ∀ kind : NumericKind,
    Text.snakeCase u.name ≠ Text.snakeCase kind.typeName

instance (m : Model) : Decidable m.ToldApart :=
  decidable_of_iff ((m.units.map fun u => Text.snakeCase u.name).Nodup ∧
      (∀ u ∈ m.units, IsPlain u.name) ∧ ∀ u ∈ m.units, ∀ kind ∈ kinds,
        Text.snakeCase u.name ≠ Text.snakeCase kind.typeName) <| by
    constructor
    · rintro ⟨hwords, hplain, hnumbers⟩
      exact ⟨hwords, hplain, fun u hu kind => hnumbers u hu kind (mem_kinds kind)⟩
    · rintro ⟨hwords, hplain, hnumbers⟩
      exact ⟨hwords, hplain, fun u hu kind _ => hnumbers u hu kind⟩

theorem isPlain_typeName (kind : NumericKind) : IsPlain kind.typeName := by
  cases kind <;> decide +kernel

section Late

variable {c : Model}

theorem Enlarged.exists_loaded (h : Enlarged m c)
    (hi : (Selection.late c).unit i = false ∧ i < c.units.length) :
    ∃ w, m.units[i]? = some w ∧ (c.viewOperand (.late c) (.unit i)).name = w.name := by
  obtain ⟨hhidden, hlt⟩ := hi
  have hu := getElem?_eq_getElem hlt
  have hearly : i < m.units.length := Nat.lt_of_not_le fun hle =>
    Bool.false_ne_true (hhidden.symm.trans ((late_unit_iff h).mpr hle))
  obtain ⟨w, hw, hname, -⟩ := h.early i _ hearly hu
  refine ⟨w, hw, ?_⟩
  rw [viewOperand, unitName?, hu, hname]
  rfl

theorem ToldApart.isPlain (hm : m.ToldApart) (h : Enlarged m c)
    (hx : ∀ i, x = .unit i → (Selection.late c).unit i = false ∧ i < c.units.length) :
    IsPlain (c.viewOperand (.late c) x).name := by
  cases x with
  | number k => exact isPlain_typeName k
  | unit i =>
    obtain ⟨w, hw, hname⟩ := h.exists_loaded (hx i rfl)
    rw [hname]
    exact hm.plain w (mem_of_getElem? hw)

theorem ToldApart.eq_of_snakeCase_eq (hm : m.ToldApart) (h : Enlarged m c)
    (hx : ∀ i, x = .unit i → (Selection.late c).unit i = false ∧ i < c.units.length)
    (hy : ∀ i, y = .unit i → (Selection.late c).unit i = false ∧ i < c.units.length)
    (hxy : Text.snakeCase (c.viewOperand (.late c) x).name =
      Text.snakeCase (c.viewOperand (.late c) y).name) : x = y := by
  cases x with
  | number k =>
    cases y with
    | number l => exact congrArg _ (snakeCase_typeName_inj hxy)
    | unit j =>
      obtain ⟨w, hw, hname⟩ := h.exists_loaded (hy j rfl)
      rw [hname] at hxy
      exact absurd hxy.symm (hm.numbers w (mem_of_getElem? hw) k)
  | unit i =>
    obtain ⟨u, hu, huname⟩ := h.exists_loaded (hx i rfl)
    cases y with
    | number l =>
      rw [huname] at hxy
      exact absurd hxy (hm.numbers u (mem_of_getElem? hu) l)
    | unit j =>
      obtain ⟨w, hw, hwname⟩ := h.exists_loaded (hy j rfl)
      rw [huname, hwname] at hxy
      refine congrArg _ ((getElem?_inj ?_ hm.words).mp ?_)
      · rw [length_map]
        exact lt_of_getElem? hu
      · rw [getElem?_map, getElem?_map, hu, hw, Option.map_some, Option.map_some, hxy]

/-- **When the names of free functions are different.** Late free functions are there for all late
operations without a host. Their names are all different exactly if functions with the same words
have the same operator and sides. If no left side has a word for an operator, this means that sides
with the same words are the same. It holds whenever words tell the loaded units apart. -/
theorem late_functionNames_nodup_iff {text : String} {options : Options} {d : Compilation}
    {config : Config} {b : Bundle} (hm : m.IsLoaded) (hd : m.extend text options = .ok d)
    (hok : d.isSuccess = true) (hb : generate config d.model.lateView = .ok b) :
    ∃ functions,
      List.Forall₂ (fun o f => freeFunction d.model.lateView o = .ok f)
        (freeOperations d.model.lateView) functions ∧
      (functions ≠ [] →
        b.files.get? "operations.rs" = some (Source.text (operationsFile config functions))) ∧
      ((functions.map fun f => identifier f.name).Nodup ↔
        ∀ o ∈ freeOperations d.model.lateView, ∀ p ∈ freeOperations d.model.lateView,
          functionWords o = functionWords p →
            (o.operator, o.lhs, o.rhs) = (p.operator, p.lhs, p.rhs)) ∧
      ((∀ o ∈ freeOperations d.model.lateView, IsPlain o.lhs.name) →
        ((functions.map fun f => identifier f.name).Nodup ↔
          ∀ o ∈ freeOperations d.model.lateView, ∀ p ∈ freeOperations d.model.lateView,
            o.operator = p.operator → Text.snakeCase o.lhs.name = Text.snakeCase p.lhs.name →
              Text.snakeCase o.rhs.name = Text.snakeCase p.rhs.name →
                o.lhs = p.lhs ∧ o.rhs = p.rhs)) ∧
      (m.ToldApart → (functions.map fun f => identifier f.name).Nodup) := by
  have henlarged := enlarged_of_extend hd hok
  have hviewed : Viewed d.model (.late d.model) := .late hm hd hok
  obtain ⟨sources, hsources, -, hparts⟩ := exists_sources_of_generate hb
  have hnames := map_identifier_functions hsources.functions
  have hdistinct := nodup_map_iff_of_nodup_map hviewed.nodup_freeOperations functionName
  refine ⟨sources.functions, hsources.functions, fun hsome => ?_, ?_, fun hplain => ?_,
    fun htold => ?_⟩
  · have hname : "operations" ≠ "mod" := by decide
    refine hparts ⟨"operations", operationsFile config sources.functions⟩ ?_ hname
    refine mem_cons_of_mem _ (mem_append_right _ (mem_append_right _ ?_))
    rw [Sources.functionParts, if_neg (mt List.isEmpty_iff.mp hsome)]
    exact mem_singleton.mpr rfl
  · rw [hnames]
    simp only [← functionName_eq_iff]
    exact hdistinct
  · rw [hnames]
    refine hdistinct.trans (forall₂_congr fun o ho => forall₂_congr fun p hp => ?_)
    rw [functionName_eq_iff_of_isPlain (hplain o ho) (hplain p hp), and_imp, and_imp]
    refine forall_congr' fun hoperator => forall₂_congr fun _ _ => ?_
    rw [Prod.mk.injEq, Prod.mk.injEq, and_iff_right hoperator]
  · rw [hnames]
    refine hdistinct.mpr fun shown hshown other hother hname => ?_
    obtain ⟨o, ho, rfl⟩ := mem_map.mp (hviewed.freeOperations_view ▸ hshown)
    obtain ⟨p, hp, rfl⟩ := mem_map.mp (hviewed.freeOperations_view ▸ hother)
    have hleft := hviewed.hidden_of_hostedBy ho (.inl rfl)
    have hleft' := hviewed.hidden_of_hostedBy hp (.inl rfl)
    have hplain := htold.isPlain henlarged hleft
    have hplain' := htold.isPlain henlarged hleft'
    obtain ⟨hoperator, hlhs, hrhs⟩ := (@functionName_eq_iff_of_isPlain
      (d.model.viewOperation _ o) (d.model.viewOperation _ p) hplain hplain').mp hname
    have hlhs := htold.eq_of_snakeCase_eq henlarged hleft hleft' hlhs
    have hrhs := htold.eq_of_snakeCase_eq henlarged (hviewed.hidden_of_hostedBy ho (.inr rfl))
      (hviewed.hidden_of_hostedBy hp (.inr rfl)) hrhs
    simp only [viewOperation] at hoperator ⊢
    rw [hoperator, hlhs, hrhs]

/-- A late volume and its functions have names of their own. -/
theorem late_functionNames_nodup_iff_volumes :
    ∃ c d b, compile areas { kind := .decimal } = .ok c ∧ (c.model.settle "si").IsLoaded ∧
      (c.model.settle "si").ToldApart ∧
      (c.model.settle "si").extend volumes { kind := .decimal } = .ok d ∧ d.isSuccess = true ∧
      generate {} d.model.lateView = .ok b ∧ ∃ functions : List FreeFunction,
        (functions.map (·.name)) = ["meter_mul_square_meter", "square_meter_mul_meter"] ∧
        b.files.get? "operations.rs" = some (Source.text (operationsFile {} functions)) ∧
        (functions.map fun f => identifier f.name).Nodup := by
  obtain ⟨c, hc, d, hd, b, hb, hcok, hdok, htold, hnames⟩ :
      ∃ c, compile areas { kind := .decimal } = .ok c ∧
        ∃ d, (c.model.settle "si").extend volumes { kind := .decimal } = .ok d ∧
        ∃ b, generate {} d.model.lateView = .ok b ∧ c.isSuccess = true ∧ d.isSuccess = true ∧
          (c.model.settle "si").ToldApart ∧ (freeOperations d.model.lateView).map functionName =
            ["meter_mul_square_meter", "square_meter_mul_meter"] := by
    decide +kernel
  have hloaded := (enlarged_of_extend hc hcok).isLoaded_settle "si"
  obtain ⟨functions, hfunctions, hfile, -, -, hnodup⟩ :=
    late_functionNames_nodup_iff hloaded hd hdok hb
  have hfunctionNames :
      functions.map (·.name) = (freeOperations d.model.lateView).map functionName := by
    rw [eq_comm, ← forall₂_eq_eq_eq, forall₂_map_left_iff, forall₂_map_right_iff]
    exact hfunctions.imp fun _ _ hf => (name_of_freeFunction hf).symm
  rw [hnames] at hfunctionNames
  refine ⟨c, d, b, hc, hloaded, htold, hd, hdok, hb, functions, hfunctionNames, hfile ?_,
    hnodup htold⟩
  rintro rfl
  cases hfunctionNames

def lengthsAndTimes : String := "unit Meter \"m\" = <Length>; unit Second \"s\" = <Time>;"

def otherMeters : String := "unit Meter \"bm\" = <Length>;"

/-- Speeds in meters, of either module, by seconds. -/
def speeds : String := "unit Speed \"mps\" = Meter / Second;"

/-- **Meters of two modules by seconds are two functions of one name.** -/
theorem late_functionNames_speeds :
    ∃ c e d, compile lengthsAndTimes { kind := .decimal } = .ok c ∧
      (c.model.settle "a").extend otherMeters { kind := .decimal } = .ok e ∧
      (e.model.settle "b").IsLoaded ∧
      (e.model.settle "b").extend speeds { kind := .decimal } = .ok d ∧ d.isSuccess = true ∧
      (∃ b, generate {} d.model.lateView = .ok b) ∧
      (freeOperations d.model.lateView).map (fun o => (functionName o, o.lhs.path)) =
        [("meter_div_second", "a::Meter"), ("meter_div_second", "b::Meter")] := by
  obtain ⟨c, hc, e, he, hunits, d, hd, b, hb, hok, hnames⟩ :
      ∃ c, compile lengthsAndTimes { kind := .decimal } = .ok c ∧
        ∃ e, (c.model.settle "a").extend otherMeters { kind := .decimal } = .ok e ∧
          (e.model.settle "b").units.map (fun u => (u.origin.module?, u.name)) =
            [(some "a", "Meter"), (some "a", "Second"), (some "b", "Meter")] ∧
        ∃ d, (e.model.settle "b").extend speeds { kind := .decimal } = .ok d ∧
        ∃ b, generate {} d.model.lateView = .ok b ∧ d.isSuccess = true ∧
          (freeOperations d.model.lateView).map (fun o => (functionName o, o.lhs.path)) =
            [("meter_div_second", "a::Meter"), ("meter_div_second", "b::Meter")] := by
    decide +kernel
  refine ⟨c, e, d, hc, he, ⟨fun u hu => ?_, ?_⟩, hd, hok, ⟨b, hb⟩, hnames⟩
  · have hmem := hunits ▸ mem_map_of_mem hu
    cases horigin : u.origin with
    | restored module => exact ⟨module, rfl⟩
    | declared span =>
      rw [horigin] at hmem
      simp [Origin.module?] at hmem
  · rw [hunits]
    decide

end Late

end Model

end Quantity
