import Quantity.Proofs.Declaration.Grammatical
import Mathlib.Data.List.TakeWhile

/-!
# The words of a text

Names are made of the characters that names go on with, so none of them holds a blank, a line feed
or a mark (`IsWord`). Whatever is declared is called by words of its text: `Declarations.read_worded`
says so for units, scales and points of reference, and also that the literals and references in
their definitions are words or texts in quotes.
-/

namespace Quantity

open List

/-- The text has only characters that names go on with. -/
def IsWord (s : String) : Prop := ∀ c ∈ s.toList, Lexeme.continuesName c = true

/-- The text is a name that can be written as it is. -/
def IsIdentifier (s : String) : Prop := s.toList.head?.any Lexeme.startsName = true ∧ IsWord s

theorem IsWord.notMem (h : IsWord s) (hc : Lexeme.continuesName c = false) : c ∉ s.toList := by
  intro hmem
  rw [h c hmem] at hc
  cases hc

/-! ### Lexemes -/

namespace Lexeme

theorem continuesName_of_startsName (h : startsName c = true) : continuesName c = true := by
  unfold startsName at h
  unfold continuesName Text.isNameChar
  rw [Bool.or_right_comm, h, Bool.true_or]

theorem continuesName_scan (h : (scan c cs).kind = .identifier verbatim) :
    ∀ x ∈ (scan c cs).value, continuesName x = true := by
  have hscan := scanned_scan c cs
  generalize scan c cs = l at h hscan
  cases hscan with
  | ordinary hkind =>
    cases h
    cases hkind
  | semicolon | string => cases h
  | name hc =>
    intro x hx
    rcases mem_cons.mp hx with rfl | hx
    · exact continuesName_of_startsName hc
    · exact mem_takeWhile_imp hx
  | verbatim => exact fun x hx => mem_takeWhile_imp hx

end Lexeme

/-! ### Tokens -/

open Grammar

theorem Token.isWord_of_mem_all (h : t ∈ all text) (hname : IsName t) : IsWord t.value := by
  obtain ⟨verbatim, hkind⟩ := hname
  obtain ⟨q, c, cs, rfl⟩ := exists_scan_of_mem h (by rw [hkind]; nofun)
  intro x hx
  rw [ofLexeme, String.toList_ofList] at hx
  exact Lexeme.continuesName_scan hkind x hx

theorem Named.isWord (h : Named (Token.all text) s) : IsWord s := by
  obtain ⟨t, ht, hname, rfl⟩ := h
  exact Token.isWord_of_mem_all ht hname

/-! ### Expressions -/

/-- The literals and references of the expression. -/
def Expr.words : Expr → List String
  | number _ _ | magnitude _ _ => []
  | literal s _ | reference s _ => [s]
  | signed _ e | paren e => e.words
  | arith _ l r => l.words ++ r.words

def Expr.literals : Expr → List String
  | literal name _ => [name]
  | signed _ e | paren e => e.literals
  | arith _ l r => l.literals ++ r.literals
  | _ => []

/-- The words of the expression are names or stand in quotes among the tokens. -/
def Expr.Worded (ts : List Token) (e : Expr) : Prop := ∀ s ∈ e.words, Named ts s ∨ Quoted ts s

theorem Expr.Worded.mono {e : Expr} (h : e.Worded ts) (hsub : ts ⊆ us) : e.Worded us :=
  fun s hs => (h s hs).imp (·.mono hsub) (·.mono hsub)

theorem Expr.Shaped.worded {e : Expr} (h : e.Shaped ts sums level) : e.Worded ts := by
  induction h with
  | @leaf e h =>
    cases e with
    | literal s _ =>
      intro s' hs'
      rw [mem_singleton.mp hs']
      exact h
    | reference s _ =>
      intro s' hs'
      rw [mem_singleton.mp hs']
      exact .inl h
    | number | magnitude => exact nofun
    | _ => exact h.elim
  | signed _ _ ih | paren _ ih | ofFactor _ ih | ofProduct _ ih => exact ih
  | product _ _ _ ihl ihr | sum _ _ _ _ ihl ihr =>
    intro s hs
    exact (mem_append.mp hs).elim (ihl s) (ihr s)

/-! ### Declarations -/

/-- What the declaration of a unit says stands among the tokens. -/
structure UnitDecl.Worded (ts : List Token) (d : UnitDecl) : Prop where
  name : Named ts d.name
  tags : ∀ tag ∈ d.tags, Quoted ts tag
  definitions : ∀ e ∈ d.definitions, e.Worded ts

/-- What the declaration of a scale says stands among the tokens. -/
structure ScaleDecl.Worded (ts : List Token) (d : ScaleDecl) : Prop where
  name : Named ts d.name
  refPoint : ∀ point, d.refPoint = some point → Named ts point
  offset : d.offset.Worded ts

section Declarations

variable {ts us : List Token}

theorem UnitDecl.Worded.mono {d : UnitDecl} (h : d.Worded ts) (hsub : ts ⊆ us) : d.Worded us where
  name := h.name.mono hsub
  tags tag htag := (h.tags tag htag).mono hsub
  definitions e he := (h.definitions e he).mono hsub

theorem ScaleDecl.Worded.mono {d : ScaleDecl} (h : d.Worded ts) (hsub : ts ⊆ us) :
    d.Worded us where
  name := h.name.mono hsub
  refPoint point hpoint := (h.refPoint point hpoint).mono hsub
  offset := h.offset.mono hsub

namespace Grammar

theorem Tags.quoted (h : Tags ts tags) : ∀ tag ∈ tags, Quoted ts tag := by
  induction h with
  | nil => exact nofun
  | @cons t ts tags ht _ ih =>
    intro tag htag
    rcases mem_cons.mp htag with rfl | htag
    · exact ⟨t, mem_cons_self .., ht, rfl⟩
    · exact (ih tag htag).mono (subset_cons_self _ _)

theorem UnitDeclaration.worded (h : UnitDeclaration ts d) : d.Worded ts := by
  have hdefinitions : ∀ e ∈ d.definitions, e.Shaped ts False .product := h.shaped
  obtain ⟨-, -, hname, htags, -, -, -, -, -, -⟩ := h
  refine ⟨⟨_, by simp, hname, rfl⟩, fun tag htag => (htags.quoted tag htag).mono ?_,
    fun e he => (hdefinitions e he).worded⟩
  exact fun t ht => by simp [ht]

theorem RefPoint.named (h : RefPoint ts point) : ∀ p, point = some p → Named ts p := by
  cases h with
  | absent => exact nofun
  | @present t hname =>
    rintro _ ⟨⟩
    exact ⟨t, mem_singleton_self t, hname, rfl⟩

theorem ScaleDeclaration.worded (h : ScaleDeclaration ts d) : d.Worded ts := by
  have hoffset := h.shaped
  obtain ⟨-, hname, -, hpoint, -, -, -⟩ := h
  refine ⟨⟨_, by simp, hname, rfl⟩, fun p hp => (hpoint.named p hp).mono ?_, hoffset.worded⟩
  exact fun t ht => by simp [ht]

end Grammar

/-- **Whatever a text declares, it says in its own words.** -/
theorem Declarations.read_worded (source : Option String) (text : String) :
    (∀ d ∈ (read source text).1.units, d.Worded (Token.all text)) ∧
      ∀ d ∈ (read source text).1.scales, d.Worded (Token.all text) := by
  obtain ⟨hunits, hscales⟩ := read_grammatical source text
  have hsub : Token.significant text ⊆ Token.all text :=
    fun _ => mem_of_mem_filter
  constructor
  · intro d hd
    obtain ⟨-, us, hus, hu⟩ := hunits d hd
    exact hu.worded.mono (List.Subset.trans hus hsub)
  · intro d hd
    obtain ⟨-, us, hus, hu⟩ := hscales d hd
    exact hu.worded.mono (List.Subset.trans hus hsub)

end Declarations

end Quantity
