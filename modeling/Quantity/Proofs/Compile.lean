import Quantity.Compile
import Quantity.Proofs.Declaration.Grammatical
import Quantity.Proofs.Model.Family
import Quantity.Proofs.Model.FixedPoint
import Quantity.Proofs.Model.Operations

/-!
# What a compilation leaves

Definitions that can be read are made of products only, so a compilation fails only if there are not
enough numbers for its families. What it leaves is a model with the operations of all its units.
-/

namespace Quantity

/-- Declarations always get their meaning, unless a definition is no product. -/
theorem Elaborate.exists_elaborate (options : Options) (m : Model) (ds : Diagnostics)
    (h : ∀ u ∈ d.units, u.IsProduct) : ∃ r, elaborate options m ds d = .ok r := by
  obtain ⟨p, hp⟩ := exists_elaborateUnits options m ds h
  unfold elaborate
  rw [hp]
  exact ⟨_, rfl⟩

namespace Model

variable {m : Model} {ds : Diagnostics} {text : String} {options : Options}

/-- The model once its entries are in families and connected, with its operations. -/
def resolved (e : Model) (firstFamily : FamilyId) : Model :=
  (e.connected (e.numberedUnits firstFamily) (e.numberedScales firstFamily)).resolveOperations

/-- What becomes of a model with its entries in families, and what was reported. -/
def finished (e : Model) (ds : Diagnostics) (firstFamily : FamilyId) : Compilation :=
  ⟨e.resolved firstFamily, ds.pushAll (relationErrors (e.numberedUnits firstFamily))⟩

theorem extend_eq {e : Model}
    (h : Elaborate.elaborate options m.beginLate (Declarations.read options.source text).2
      (Declarations.read options.source text).1 = .ok (e, ds)) :
    m.extend text options = if e.HasRoom options.firstFamily then
      .ok (e.finished ds options.firstFamily) else .error .familyOverflow := by
  have hresolve := e.resolveFamilies_numbered options.firstFamily ds
  unfold extend
  dsimp only
  rw [h]
  dsimp only [bind, Except.bind]
  by_cases hroom : e.HasRoom options.firstFamily
  · rw [if_pos hroom] at hresolve ⊢
    rw [hresolve]
    rfl
  · rw [if_neg hroom] at hresolve ⊢
    rw [hresolve]
    rfl

/-- There are numbers left for all families that the text opens. -/
def HasRoomFor (m : Model) (text : String) (options : Options) : Prop :=
  ∀ e ds, Elaborate.elaborate options m.beginLate (Declarations.read options.source text).2
    (Declarations.read options.source text).1 = .ok (e, ds) → e.HasRoom options.firstFamily

/-- **A text leads to a model exactly if there are numbers for its families.** -/
theorem exists_extend_iff (m : Model) (text : String) (options : Options) :
    (∃ c, m.extend text options = .ok c) ↔ m.HasRoomFor text options := by
  obtain ⟨⟨e, ds⟩, h⟩ := Elaborate.exists_elaborate options m.beginLate
    (Declarations.read options.source text).2 (Declarations.read_isProduct options.source text)
  rw [extend_eq h]
  constructor
  · rintro ⟨c, hc⟩ e' ds' h'
    rw [h] at h'
    cases h'
    split_ifs at hc with hroom
    exact hroom
  · intro hroom
    exact ⟨_, if_pos (hroom e ds h)⟩

theorem familyOverflow_of_extend (h : m.extend text options = .error e) : e = .familyOverflow := by
  obtain ⟨⟨m', ds⟩, helab⟩ := Elaborate.exists_elaborate options m.beginLate
    (Declarations.read options.source text).2 (Declarations.read_isProduct options.source text)
  rw [extend_eq helab] at h
  split_ifs at h
  exact (Except.error.inj h).symm

theorem exists_finished (hc : m.extend text options = .ok c) :
    ∃ e ds, Elaborate.elaborate options m.beginLate (Declarations.read options.source text).2
        (Declarations.read options.source text).1 = .ok (e, ds) ∧
      e.HasRoom options.firstFamily ∧ c = e.finished ds options.firstFamily := by
  obtain ⟨⟨e, ds⟩, h⟩ := Elaborate.exists_elaborate options m.beginLate
    (Declarations.read options.source text).2 (Declarations.read_isProduct options.source text)
  rw [extend_eq h] at hc
  split_ifs at hc with hroom
  exact ⟨e, ds, h, hroom, (Except.ok.inj hc).symm⟩

end Model

/-- **Every compilation leaves a table with exactly the operations of its units**, and each
unit lists the operations it takes part in. -/
theorem extend_isOperationTable (m : Model) (text : String) (options : Options) :
    ((∃ c, m.extend text options = .ok c) ↔ m.HasRoomFor text options) ∧
      ∀ c, m.extend text options = .ok c →
        Model.IsOperationTable c.model.units c.model.operations ∧ c.model.ListsOperations := by
  refine ⟨m.exists_extend_iff text options, fun c hc => ?_⟩
  obtain ⟨e, ds, -, -, rfl⟩ := Model.exists_finished hc
  exact ⟨Model.isOperationTable_resolveOperations _, Model.listsOperations_resolveOperations _⟩

end Quantity
