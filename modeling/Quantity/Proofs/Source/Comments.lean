import Quantity.Proofs.Source.Merged

/-!
# Documentation is only comments

Texts from the definitions are set into documentation as they stand. `generate_docs_iff` says what
documentation changes: the files are the same, and so is the code in them, exactly if each line that
a comment takes up is a comment by itself. A comment with a line break, such as that of a tag, may
have lines that are not.
-/

namespace Quantity.Source

open List

open Quantity.Text (Dictionary)

variable {on off ds : Lines} {c : Config} {v : View}

/-! ### Comments and code -/

/-- Whether a line is documentation, however far it is indented. -/
def isDoc (line : String) : Bool := ['/', '/', '/'].isPrefixOf (line.toList.dropWhile Text.isBlank)

/-- The lines of a text that are no documentation. -/
def codeLines (text : String) : Lines := (Text.lines text).filter (!isDoc ·)

/-- Each line of the comment is documentation. -/
def IsComment (comment : String) : Prop := codeLines (comment ++ "\n") = []

theorem isDoc_append (h : (['/', '/', '/'].isPrefixOf cs) = true) (rest : String) :
    isDoc (String.ofList cs ++ rest) = true := by
  obtain ⟨tail, rfl⟩ := isPrefixOf_iff_prefix.mp h
  have hline : (String.ofList (['/', '/', '/'] ++ tail) ++ rest).toList =
      '/' :: '/' :: '/' :: (tail ++ rest.toList) := by simp
  rw [isDoc, hline]
  rfl

theorem isDoc_indented (line : String) : isDoc (indented line) = isDoc line := by
  unfold indented
  split_ifs with hempty
  · rfl
  · rw [isDoc, String.toList_append]
    rfl

theorem isDoc_chomp (h : isDoc line = true) : isDoc (Text.chomp line) = true := by
  unfold Text.chomp Text.dropReturn
  split_ifs with hreturn
  · obtain ⟨cs, hcs⟩ := getLast?_eq_some_iff.mp hreturn
    rw [isDoc, hcs, dropWhile_append, isPrefixOf_iff_prefix] at h
    rw [isDoc, String.toList_ofList, hcs, dropLast_concat, isPrefixOf_iff_prefix]
    split_ifs at h
    · exact absurd (prefix_nil.mp h) (cons_ne_nil _ _)
    · refine (prefix_concat_iff.mp h).resolve_left fun heq => ?_
      exact absurd (congrArg getLast? heq) (by simp)
  · rwa [String.ofList_toList]

/-- Documentation on one line is a comment. -/
theorem isComment_of_oneLine (hdoc : isDoc line = true) (h : OneLine line) : IsComment line := by
  have hlines := Text.lines_text_of_oneLine (forall_mem_singleton.mpr h)
  have htext : text [line] = line ++ "\n" := by simp [text]
  rw [IsComment, codeLines, ← htext, hlines, map_singleton, filter_singleton, isDoc_chomp hdoc]
  rfl

theorem codeLines_text (ls : Lines) :
    codeLines (text ls) = ls.flatMap fun l => codeLines (l ++ "\n") := by
  rw [codeLines, Text.lines_text, filter_flatMap]
  rfl

/-- **Lines with comments in between**: `on` has the lines of `off` in their order, and besides them
those of `ds`. -/
structure Documents (ds on off : Lines) : Prop where
  sublist : off <+ on
  perm : on.Perm (off ++ ds)

namespace Documents

theorem same (ls : Lines) : Documents [] ls ls := ⟨.refl _, by rw [append_nil]⟩

theorem docs (ds : Lines) : Documents ds (onlyIf true ds) (onlyIf false ds) :=
  ⟨nil_sublist _, .refl _⟩

theorem append (h : Documents ds on off) (h' : Documents ds' on' off') :
    Documents (ds ++ ds') (on ++ on') (off ++ off') where
  sublist := h.sublist.append h'.sublist
  perm := by
    refine (h.perm.append h'.perm).trans ?_
    rw [append_assoc, append_assoc]
    exact .append_left _ (perm_append_comm_assoc ..)

theorem before (h : Documents ds on off) (ls : Lines) : Documents ds (ls ++ on) (ls ++ off) :=
  (same ls).append h

theorem after (h : Documents ds on off) (ls : Lines) : Documents ds (on ++ ls) (off ++ ls) := by
  have := h.append (same ls)
  rwa [append_nil] at this

theorem block (h : Documents ds on off) (head : String) :
    Documents (ds.map indented) (block head on) (block head off) := by
  have : Documents (ds.map indented) (on.map indented) (off.map indented) :=
    ⟨h.sublist.map _, map_append ▸ h.perm.map _⟩
  exact (this.before [head ++ " \x7b"]).after ["\x7d"]

theorem flatMap {f g h : α → Lines} (hall : ∀ x, Documents (f x) (g x) (h x)) (xs : List α) :
    Documents (xs.flatMap f) (xs.flatMap g) (xs.flatMap h) := by
  induction xs with
  | nil => exact same []
  | cons x xs ih =>
    exact (hall x).append ih

/-- **Comments leave the code alone exactly if they are comments.** -/
theorem codeLines_eq_iff (h : Documents ds on off) :
    codeLines (text on) = codeLines (text off) ↔ ∀ l ∈ ds, IsComment l := by
  have hlength := (h.perm.flatMap_right fun l => codeLines (l ++ "\n")).length_eq
  have hnil : (∀ l ∈ ds, IsComment l) ↔ (ds.flatMap fun l => codeLines (l ++ "\n")).length = 0 := by
    rw [length_eq_zero_iff, flatMap_eq_nil_iff]
    rfl
  rw [flatMap_append, length_append] at hlength
  rw [codeLines_text, codeLines_text, hnil]
  constructor
  · intro heq
    rw [heq] at hlength
    omega
  · intro hnil
    exact ((h.sublist.flatMap _).eq_of_length (by omega)).symm

end Documents

/-! ### The comments of a file -/

def UnitSource.comments (s : UnitSource) : Lines :=
  unitDocs s.unit s.family
    ++ (["/// " ++ codeSpan s.unit.dimension.code] ++ factorDocs s.unit).map indented

def ScaleSource.comments (s : ScaleSource) : Lines :=
  scaleDocs s.scale s.unit s.family ++ ["/// " ++ codeSpan s.scale.offset.code].map indented

def FreeFunction.comment (f : FreeFunction) : String := "/// " ++ codeSpan f.operation.text

def dimensionComment : String :=
  "/// Exponents over " ++ String.intercalate ", " (Magnitude.all.map Magnitude.name)

theorem UnitSource.isDoc_comments (s : UnitSource) : ∀ l ∈ s.comments, isDoc l = true := by
  simp only [comments, unitDocs, factorDocs, map_cons, cons_append, nil_append,
    forall_mem_cons, isDoc_indented, String.append_assoc]
  refine ⟨isDoc_append rfl _, rfl, isDoc_append rfl _, ?_, isDoc_append rfl _, ?_, by simp⟩
  · cases s.unit.prime
    · rfl
    · exact isDoc_append rfl _
  · split_ifs <;> exact isDoc_append rfl _

theorem ScaleSource.isDoc_comments (s : ScaleSource) : ∀ l ∈ s.comments, isDoc l = true := by
  simp only [comments, scaleDocs, map_cons, map_nil, cons_append, nil_append, forall_mem_cons,
    isDoc_indented, String.append_assoc]
  exact ⟨isDoc_append rfl _, rfl, isDoc_append rfl _, isDoc_append rfl _, by simp⟩

/-- Documentation adds the comments to a file, under any configuration. -/
def Documented (content : Config → Lines) (comments : Lines) : Prop :=
  ∀ c : Config, Documents comments (content { c with docs := true }) (content { c with docs := false })

theorem UnitSource.documented (s : UnitSource) : Documented (s.lines ·) s.comments := by
  have hconstants : Documented (unitConstants · s.unit s.family)
      (["/// " ++ codeSpan s.unit.dimension.code] ++ factorDocs s.unit) :=
    fun c => ((((Documents.docs _).before _).after _).append (.docs _)).after _
  intro c
  repeat refine Documents.after ?_ _
  refine Documents.append ?_ ((((hconstants c).after _).block _).before [""])
  exact (((Documents.docs _).before _).after _).after _

theorem ScaleSource.documented (s : ScaleSource) : Documented (s.lines ·) s.comments := by
  have hconstants : Documented (scaleConstants · s.scale s.unit.numericType s.family)
      ["/// " ++ codeSpan s.scale.offset.code] :=
    fun c => ((Documents.docs _).before _).after _
  intro c
  repeat refine Documents.after ?_ _
  refine Documents.append ?_ (((((hconstants c).after _).after _).block _).before [""])
  exact (((Documents.docs _).before _).after _).after _

theorem documented_operationsFile (functions : List FreeFunction) :
    Documented (operationsFile · functions) (functions.map FreeFunction.comment) := by
  have hone (f : FreeFunction) : Documented (fun c => apart (f.lines c)) [f.comment] :=
    fun c => ((Documents.docs _).after _).before [""]
  intro c
  rw [map_eq_flatMap]
  exact (Documents.flatMap (hone · c) functions).before _

theorem documented_dimensionFile : Documented dimensionFile [dimensionComment] := by
  intro c
  repeat refine Documents.after ?_ _
  exact (Documents.docs _).before _

/-! ### Documented bundles -/

/-- A file next to the root file, under any configuration, and the comments in it. -/
structure Piece where
  name : String
  content : Config → Lines
  comments : Lines

namespace Sources

/-- The files next to the root file. -/
def pieces (s : Sources) : List Piece :=
  ⟨"dimension", dimensionFile, [dimensionComment]⟩
    :: (s.units.map (fun u => ⟨moduleName u.unit.name, fun c => u.lines c, u.comments⟩)
      ++ (s.scales.map (fun e => ⟨moduleName e.scale.name, fun c => e.lines c, e.comments⟩)
        ++ if s.functions.isEmpty then [] else [⟨"operations",
          fun c => operationsFile c s.functions, s.functions.map FreeFunction.comment⟩]))

variable {s s' : Sources}

theorem parts_eq (c : Config) (s : Sources) :
    s.parts c = s.pieces.map fun p => ⟨p.name, p.content c⟩ := by
  simp only [parts, pieces, functionParts, map_cons, map_append, map_map]
  split_ifs <;> rfl

theorem documented_of_mem_pieces (hp : p ∈ s.pieces) :
    Documented p.content p.comments ∧ ∀ l ∈ p.comments, isDoc l = true := by
  simp only [pieces, mem_cons, mem_append, mem_map] at hp
  rcases hp with rfl | ⟨u, -, rfl⟩ | ⟨e, -, rfl⟩ | hp
  · exact ⟨documented_dimensionFile, by decide +kernel⟩
  · exact ⟨u.documented, u.isDoc_comments⟩
  · exact ⟨e.documented, e.isDoc_comments⟩
  · split_ifs at hp
    · cases hp
    · rw [mem_singleton.mp hp]
      exact ⟨documented_operationsFile _, forall_mem_map.mpr fun f _ => isDoc_append rfl _⟩

theorem Of.eq (h : s.Of v) (h' : s'.Of v) : s = s' := by
  obtain ⟨units, scales, functions⟩ := s
  cases (mapM_eq_ok_iff.mpr h.units).symm.trans (mapM_eq_ok_iff.mpr h'.units)
  cases (mapM_eq_ok_iff.mpr h.scales).symm.trans (mapM_eq_ok_iff.mpr h'.scales)
  cases (mapM_eq_ok_iff.mpr h.functions).symm.trans (mapM_eq_ok_iff.mpr h'.functions)
  rfl

end Sources

/-- **Documentation changes comments only, as far as comments are comments.** With and without it the
same files are generated or none, and the code in them is the same exactly if each line of a comment is
a comment by itself, as it is for comments on one line. -/
theorem generate_docs_iff (c : Config) (v : View) :
    ((∃ b, generate { c with docs := true } v = .ok b) ↔
      ∃ b, generate { c with docs := false } v = .ok b) ∧
    ∀ b b', generate { c with docs := true } v = .ok b →
      generate { c with docs := false } v = .ok b' →
      (∀ file, file ∈ b.files.names ↔ file ∈ b'.files.names) ∧
      ∃ s : Sources, s.Of v ∧
        ((∀ file content content', b.files.get? file = some content →
            b'.files.get? file = some content' → codeLines content = codeLines content') ↔
          ∀ p ∈ s.pieces, p.name ≠ "mod" → ∀ l ∈ p.comments, IsComment l) ∧
        ∀ p ∈ s.pieces, ∀ l ∈ p.comments, OneLine l → IsComment l := by
  refine ⟨exists_generate_iff.trans exists_generate_iff.symm, fun b b' h h' => ?_⟩
  obtain ⟨s, hs, hroot, hparts⟩ := exists_sources_of_generate h
  obtain ⟨s', hs', hroot', hparts'⟩ := exists_sources_of_generate h'
  obtain rfl := hs.eq hs'
  have hnames := (nodup_names_of_generate h).2.2
  have hfile (p : Piece) (hp : p ∈ s.pieces) (hname : p.name ≠ "mod") :
      b.files.get? (fileName p.name) = some (text (p.content { c with docs := true })) ∧
        b'.files.get? (fileName p.name) = some (text (p.content { c with docs := false })) := by
    constructor
    · exact hparts ⟨p.name, _⟩ (s.parts_eq _ ▸ mem_map_of_mem hp) hname
    · exact hparts' ⟨p.name, _⟩ (s.parts_eq _ ▸ mem_map_of_mem hp) hname
  refine ⟨fun file => (hnames file).trans ((nodup_names_of_generate h').2.2 file).symm, s, hs,
    ⟨fun hsame p hp hname => ?_, fun hall file content content' hb hb' => ?_⟩, fun p hp l hl => ?_⟩
  · obtain ⟨hb, hb'⟩ := hfile p hp hname
    exact ((s.documented_of_mem_pieces hp).1 c).codeLines_eq_iff.mp (hsame _ _ _ hb hb')
  · by_cases hmain : file = rootName
    · rw [hmain] at hb hb'
      rw [Option.some.inj (hb.symm.trans hroot), Option.some.inj (hb'.symm.trans hroot')]
      rfl
    · have hmem := ((hnames file).mp (Dictionary.mem_names_of_get? hb)).resolve_left hmain
      rw [← hs.map_name_parts (c := c), s.parts_eq, map_map, map_map] at hmem
      obtain ⟨p, hp, rfl⟩ := mem_map.mp hmem
      have hname : p.name ≠ "mod" := fun heq => hmain ((congrArg fileName heq).trans rootName_eq.symm)
      obtain ⟨hfile, hfile'⟩ := hfile p hp hname
      rw [Option.some.inj (hb.symm.trans hfile), Option.some.inj (hb'.symm.trans hfile')]
      exact ((s.documented_of_mem_pieces hp).1 c).codeLines_eq_iff.mpr (hall p hp hname)
  · exact isComment_of_oneLine ((s.documented_of_mem_pieces hp).2 l hl)

/-- A length whose symbol has two lines. -/
def twoLineSymbol : String := "unit Meter \"m\\npub fn leaked() \x7b\x7d //\" = <Length>;"

/-- The second line of the symbol is code in the documented file. -/
theorem generate_docs_iff_twoLineSymbol :
    ∃ d b b', compile twoLineSymbol { kind := .decimal } = .ok d ∧ d.isSuccess = true ∧
      generate {} d.model.fullView = .ok b ∧ generate { docs := false } d.model.fullView = .ok b' ∧
      ¬ ∀ file content content', b.files.get? file = some content →
        b'.files.get? file = some content' → codeLines content = codeLines content' := by
  obtain ⟨d, hd, hok, b, hb, b', hb', u, hu, hname, hsymbol⟩ :
      ∃ d, compile twoLineSymbol { kind := .decimal } = .ok d ∧ d.isSuccess = true ∧
        ∃ b, generate {} d.model.fullView = .ok b ∧
        ∃ b', generate { docs := false } d.model.fullView = .ok b' ∧
        ∃ u ∈ d.model.fullView.units.filter (·.valid), moduleName u.name = "meter" ∧
          ¬ codeLines ("/// " ++ u.name ++ " (" ++ codeSpan u.symbol ++ ")" ++ "\n") = [] := by
    decide +kernel
  refine ⟨d, b, b', hd, hok, hb, hb', fun hsame => hsymbol ?_⟩
  obtain ⟨s, hs, hiff, -⟩ := ((generate_docs_iff {} d.model.fullView).2 b b' hb hb').2
  rw [← hs.map_unit] at hu
  obtain ⟨source, hsource, rfl⟩ := mem_map.mp hu
  have hpiece : (⟨moduleName source.unit.name, fun c => source.lines c, source.comments⟩ : Piece) ∈
      s.pieces := mem_cons_of_mem _ (mem_append_left _ (mem_map_of_mem hsource))
  have hmod : moduleName source.unit.name ≠ "mod" := by
    rw [hname]
    decide
  exact hiff.mp hsame _ hpiece hmod _ mem_cons_self

end Quantity.Source
