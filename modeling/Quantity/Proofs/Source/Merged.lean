import Mathlib.Data.List.SplitBy
import Quantity.Proofs.Model.OneLine
import Quantity.Proofs.Source.Complete

/-!
# Merged bundles

A bundle is merged by going through the lines of its root file and putting files in place of the
lines that declare them. Which lines these are is told by their text, and a name of an entry goes into
other lines of the root file as it stands. As long as names are on one line, nothing is lost and
nothing comes twice (`merged_inlines_once`): the root file declares each other file once, the words of
a name lead back to its file, and the indentation can be taken away again.
-/

namespace Quantity

open List

/-! ### Words of a name -/

namespace Text

theorem forall_isAscii {P : Char → Prop} (h : ∀ n < 128, P (Char.ofNat n)) (hc : isAscii c = true) :
    P c :=
  c.ofNat_toNat ▸ h c.toNat (of_decide_eq_true hc)

theorem toNat_of_isNameChar (h : isNameChar c = true) : 47 < c.toNat := by
  by_cases hascii : isAscii c = true
  · exact forall_isAscii (P := fun c => isNameChar c = true → 47 < c.toNat) (by decide +kernel)
      hascii h
  · have hbeyond : ¬ c.toNat < 128 := fun hlt => hascii (decide_eq_true hlt)
    omega

/-- No small form is a mark or a blank: shifts stay above the digits and within the characters. -/
theorem toNat_of_mem_smallForm (hd : d ∈ smallForm c) (h : 47 < c.toNat) : 47 < d.toNat := by
  unfold smallForm at hd
  split_ifs at hd with hascii hdotted
  · rw [mem_singleton.mp hd]
    exact forall_isAscii (P := fun c => 47 < c.toNat → 47 < c.toLower.toNat) (by decide +kernel)
      hascii h
  · rcases mem_pair.mp hd with rfl | rfl <;> decide
  · cases hshift : caseShifts.find? fun s => s.range.contains c with
    | none =>
      rw [hshift] at hd
      rwa [mem_singleton.mp hd]
    | some s =>
      rw [hshift] at hd
      have hall : ∀ s ∈ caseShifts, 48 ≤ s.range.first + s.shift ∧
          (s.range.last + s.shift < 0xD800 ∨
            0xE000 ≤ s.range.first + s.shift ∧ s.range.last + s.shift < 0x110000) := by
        decide +kernel
      obtain ⟨hfirst, hlast⟩ := hall s (mem_of_find?_eq_some hshift)
      have hrange := find?_some hshift
      simp only [CharRange.contains, Bool.and_eq_true, decide_eq_true_eq] at hrange
      have hvalid : ((c.toNat : Int) + s.shift).toNat.isValidChar := by
        omega
      rw [mem_singleton.mp hd, Char.toNat_ofNat, if_pos hvalid]
      omega

theorem flatten_cutWords (mode : WordCase) (word cs : List Char) :
    (cutWords mode word cs).flatten = word.reverse ++ cs := by
  fun_induction cutWords mode word cs <;> simp_all

theorem isNameChar_of_mem_pieces (hp : p ∈ pieces cs) (hc : c ∈ p) : isNameChar c = true := by
  obtain ⟨hp, hany⟩ := mem_filter.mp hp
  obtain ⟨a, ha, hname⟩ := any_eq_true.mp hany
  let Same (a b : Char) : Prop := isNameChar a = isNameChar b
  have hchain : p.IsChain Same := (isChain_of_mem_splitBy hp).imp fun _ _ => eq_of_beq
  have hsame : Same c a := hchain.pairwise.forall_of_forall (fun x _ => (rfl : Same x x))
    hc ha
  exact hsame.trans hname

theorem toNat_of_mem_smallWord (hd : d ∈ smallWord w) (h : ∀ c ∈ w, 47 < c.toNat) :
    47 < d.toNat := by
  fun_induction smallWord w with
  | case1 => cases hd
  | case2 c hsigma =>
    rw [mem_singleton.mp hd]
    decide
  | case3 c hc => exact toNat_of_mem_smallForm hd (h c mem_cons_self)
  | case4 c cs hcs ih =>
    obtain ⟨hc, hcs⟩ := forall_mem_cons.mp h
    rcases mem_append.mp hd with hd | hd
    · exact toNat_of_mem_smallForm hd hc
    · exact ih hd hcs

theorem toNat_of_mem_snakeCase (name : String) : ∀ c ∈ (snakeCase name).toList, 47 < c.toNat := by
  refine forall_mem_intercalate (by simp) fun x hx c hc => ?_
  obtain ⟨w, hw, rfl⟩ := mem_map.mp hx
  rw [String.toList_ofList] at hc
  obtain ⟨p, hp, hw⟩ := mem_flatMap.mp hw
  refine toNat_of_mem_smallWord hc fun d hd => toNat_of_isNameChar ?_
  have hd := mem_flatten_of_mem hw hd
  rw [flatten_cutWords] at hd
  exact isNameChar_of_mem_pieces hp hd

/-! ### Lines of a text -/

/-- A line as it is read back. -/
def chomp (line : String) : String := String.ofList (dropReturn line.toList)

theorem splitLines_append (line cs rest : List Char) :
    splitLines line (cs ++ '\n' :: rest) = splitLines line (cs ++ ['\n']) ++ splitLines [] rest := by
  induction cs generalizing line with
  | nil => simp [splitLines]
  | cons c cs ih =>
    simp only [cons_append, splitLines, ih]
    split_ifs <;> rfl

/-- A text is read line by line, and a line that is not on one line becomes several. -/
theorem lines_text (ls : List String) :
    lines (Source.text ls) = ls.flatMap fun l => lines (l ++ "\n") := by
  induction ls with
  | nil => rfl
  | cons l ls ih =>
    have htext : (Source.text (l :: ls)).toList = l.toList ++ '\n' :: (Source.text ls).toList := by
      simp [Source.text]
    rw [lines, htext, splitLines_append, flatMap_cons, ← ih]
    simp [lines]

theorem splitLines_feed (h : '\n' ∉ cs) (line : List Char) :
    splitLines line (cs ++ ['\n']) = [dropReturn (line.reverse ++ cs)] := by
  induction cs generalizing line with
  | nil => simp [splitLines]
  | cons c cs ih =>
    obtain ⟨hc, hcs⟩ := not_or.mp (mt mem_cons.mpr h)
    rw [cons_append, splitLines, if_neg (Ne.symm hc), ih hcs]
    simp

theorem lines_text_of_oneLine (h : ∀ l ∈ ls, OneLine l) : lines (Source.text ls) = ls.map chomp := by
  rw [lines_text, map_eq_flatMap]
  refine flatMap_congr fun l hl => ?_
  rw [lines, String.toList_append]
  exact congrArg _ (splitLines_feed (h l hl) [])

theorem splitLines_eq (h : '\n' ∉ cs) (line : List Char) (hsome : line ≠ [] ∨ cs ≠ []) :
    splitLines line cs = [line.reverse ++ cs] := by
  induction cs generalizing line with
  | nil => simp_all [splitLines]
  | cons c cs ih =>
    obtain ⟨hc, hcs⟩ := not_or.mp (mt mem_cons.mpr h)
    rw [splitLines, if_neg (Ne.symm hc), ih hcs _ (.inl (cons_ne_nil _ _))]
    simp

theorem lines_of_oneLine (h : OneLine l) (hsome : l ≠ "") : lines l = [l] := by
  have hsome : l.toList ≠ [] := fun hnil => hsome (String.toList_eq_nil_iff.mp hnil)
  rw [lines, splitLines_eq h [] (.inr hsome)]
  simp

theorem oneLine_chomp (h : OneLine l) : OneLine (chomp l) := by
  unfold chomp dropReturn OneLine
  rw [String.toList_ofList]
  split_ifs
  · exact fun hmem => h (mem_of_mem_dropLast hmem)
  · exact h

theorem notMem_hexDigits (n : Nat) : '\n' ∉ hexDigits n := by
  have hdigit : ∀ n < 16, '\n' ≠ n.digitChar := by decide
  induction n using Nat.strongRecOn with
  | ind n ih =>
    by_cases hn : n < 16
    · rw [hexDigits, Nat.toDigits_of_lt_base hn]
      exact mt mem_singleton.mp (hdigit n hn)
    · rw [hexDigits, Nat.toDigits_of_base_le (by decide) (by omega), mem_append, mem_singleton]
      exact not_or.mpr ⟨ih (n / 16) (by omega), hdigit _ (Nat.mod_lt n (by decide))⟩

theorem oneLine_quoted (s : String) : OneLine (quoted s) := by
  have hchar (c : Char) : '\n' ∉ quoteChar c := by
    fun_cases quoteChar c with
    | case7 c _ _ _ hfeed => exact fun hmem => hfeed (mem_singleton.mp hmem).symm
    | case8 => simp [codePointEscape, notMem_hexDigits]
    | _ => decide
  unfold OneLine quoted
  simp [hchar]

end Text

namespace Source

open Quantity.Text (Dictionary chomp)

theorem oneLine_identifier : OneLine (identifier name) ↔ OneLine name := by
  unfold identifier
  split_ifs
  · exact oneLine_append.trans (and_iff_right (by simp [OneLine]))
  · exact Iff.rfl

/-- No mark and no blank is in the name of a module. -/
theorem toNat_of_mem_moduleNames (hm : m ∈ moduleNames v) : ∀ c ∈ m.toList, 47 < c.toNat := by
  rcases mem_cons.mp hm with rfl | hm
  · simp
  · rcases mem_append.mp hm with hm | hm
    · obtain ⟨name, -, rfl⟩ := mem_map.mp hm
      exact Text.toNat_of_mem_snakeCase name
    · unfold onlyIf at hm
      split_ifs at hm
      · rw [mem_singleton.mp hm]
        simp
      · cases hm

theorem dropRawMarks_eq (h : '#' ∉ cs) : Bundle.dropRawMarks cs = cs := by
  fun_cases Bundle.dropRawMarks cs with
  | case1 cs => simp at h
  | case2 => rfl

theorem dropRawMarks_identifier (h : '#' ∉ m.toList) :
    Bundle.dropRawMarks (identifier m).toList = m.toList := by
  unfold identifier
  split_ifs
  · rw [String.toList_append]
    exact dropRawMarks_eq h
  · exact dropRawMarks_eq h

/-! ### Lines of the root file -/

theorem oneLine_unitCatalogLine {s : UnitSource} (h : OneLine s.unit.name) :
    OneLine (unitCatalogLine s) := by
  delta unitCatalogLine catalogNumber
  simp only [oneLine_append, oneLine_identifier, h, Numeral.oneLine_literal]
  simp [OneLine]

theorem oneLine_scaleCatalogLine {s : ScaleSource} (h : OneLine s.scale.name) :
    OneLine (scaleCatalogLine s) := by
  delta scaleCatalogLine catalogNumber
  simp only [oneLine_append, oneLine_identifier, h, Numeral.oneLine_literal, Text.oneLine_quoted]
  simp [OneLine]

theorem oneLine_moduleLine (name : String) : OneLine (moduleLine name) := by
  have hname : OneLine (identifier (moduleName name)) := oneLine_identifier.mpr fun hfeed =>
    absurd (Text.toNat_of_mem_snakeCase name _ hfeed) (by decide)
  exact oneLine_append.mpr ⟨oneLine_append.mpr ⟨by simp [OneLine], hname⟩, by simp [OneLine]⟩

theorem oneLine_exportLine (h : OneLine name) : OneLine (exportLine name) := by
  have hmodule := oneLine_moduleLine name
  simp only [moduleLine, oneLine_append] at hmodule
  simp only [exportLine, oneLine_append, oneLine_identifier.mpr h, hmodule.1.2]
  simp [OneLine]

theorem oneLine_onlyIf (condition : Bool) (h : ∀ l ∈ ls, OneLine l) :
    ∀ l ∈ onlyIf condition ls, OneLine l := by
  cases condition
  · exact forall_mem_nil _
  · exact h

theorem oneLine_indented : OneLine (indented line) ↔ OneLine line := by
  unfold indented
  split_ifs
  · exact Iff.rfl
  · exact oneLine_append.trans (and_iff_right (oneLine_ofList.mpr (by decide)))

theorem forall_oneLine_block {head : String} {body : Lines} :
    (∀ l ∈ block head body, OneLine l) ↔ OneLine head ∧ ∀ l ∈ body, OneLine l := by
  have hopen : OneLine " \x7b" := oneLine_ofList.mpr (by decide)
  have hclose : OneLine "\x7d" := oneLine_ofList.mpr (by decide)
  simp only [block, forall_mem_append, forall_mem_cons, forall_mem_map, oneLine_append,
    oneLine_indented, hopen, hclose, not_mem_nil, false_implies, implies_true, and_true]

theorem forall_oneLine_apart : (∀ l ∈ apart ls, OneLine l) ↔ ∀ l ∈ ls, OneLine l :=
  forall_mem_cons.trans (and_iff_right (oneLine_ofList.mpr (by decide)))

theorem oneLine_catalog : ∀ l ∈ catalogTypes ++ catalogLookups, OneLine l := by
  simp only [catalogTypes, catalogLookups, forall_mem_append, forall_oneLine_block,
    forall_oneLine_apart, forall_mem_cons, not_mem_nil, false_implies, implies_true, and_true]
  repeat' apply And.intro
  all_goals exact oneLine_ofList.mpr (by decide)

theorem oneLine_root {s : Sources} (hs : s.Of v) (hmodule : OneLine c.moduleName)
    (hnames : ∀ name ∈ entryNames v, OneLine name) : ∀ l ∈ s.root c, OneLine l := by
  rw [hs.entryNames_eq] at hnames
  obtain ⟨hunits, hscales⟩ := forall_mem_append.mp hnames
  rw [forall_mem_map] at hunits hscales
  have hcatalog {entries : Lines} {head : String} (hhead : OneLine head)
      (hentries : ∀ l ∈ entries, OneLine l) :
      ∀ l ∈ apart ([head] ++ entries ++ ["];"]), OneLine l := by
    simp only [forall_oneLine_apart, forall_mem_cons, forall_mem_append]
    exact ⟨⟨⟨hhead, forall_mem_nil _⟩, hentries⟩, oneLine_ofList.mpr (by decide), forall_mem_nil _⟩
  simp only [Sources.root, rootFile, forall_mem_append]
  refine ⟨⟨⟨⟨⟨⟨⟨⟨⟨⟨⟨?_, ?_⟩, ?_⟩, ?_⟩, ?_⟩, ?_⟩, ?_⟩, ?_⟩, ?_⟩, ?_⟩, ?_⟩, ?_⟩
  · exact forall_mem_cons.mpr ⟨oneLine_append.mpr ⟨oneLine_ofList.mpr (by decide), hmodule⟩,
      by simp [OneLine]⟩
  · exact oneLine_onlyIf _ (by simp [OneLine])
  · simp [OneLine]
  · exact forall_mem_map.mpr fun name _ => oneLine_moduleLine name
  · exact oneLine_onlyIf _ (by simp [OneLine])
  · simp [OneLine]
  · exact forall_mem_map.mpr fun name hname => oneLine_exportLine (hnames name hname)
  · exact oneLine_onlyIf _ (by simp [OneLine])
  · exact forall_oneLine_apart.mpr (forall_mem_append.mp oneLine_catalog).1
  · exact hcatalog (oneLine_ofList.mpr (by decide))
      (forall_mem_map.mpr fun u hu => oneLine_unitCatalogLine (hunits u hu))
  · exact hcatalog (oneLine_ofList.mpr (by decide))
      (forall_mem_map.mpr fun e he => oneLine_scaleCatalogLine (hscales e he))
  · exact (forall_mem_append.mp oneLine_catalog).2

theorem declaresModule_chomp (line : String) :
    declaresModule (chomp line) = declaresModule line := by
  unfold chomp Text.dropReturn
  split_ifs with hreturn
  · obtain ⟨cs, hcs⟩ := getLast?_eq_some_iff.mp hreturn
    rw [declaresModule_ofList, declaresModule, hcs, dropLast_concat, Bool.eq_iff_iff,
      isPrefixOf_iff_prefix, isPrefixOf_iff_prefix, prefix_concat_iff, or_iff_right]
    exact fun heq => absurd (congrArg getLast? heq) (by simp [moduleStart])
  · rw [String.ofList_toList]

/-! ### Merging -/

namespace Bundle

/-- **Files take the places of the lines that declare them**, all other lines that are not empty are
indented. -/
inductive Inlined : (files : List (String × String)) → (root merged : Lines) → Prop
  | nil : Inlined [] [] []
  | empty {files : List (String × String)} {root merged : Lines} : Inlined files root merged →
    Inlined files ("" :: root) merged
  | line {files : List (String × String)} {line : String} {root merged : Lines} : line ≠ "" →
    declaresModule line = false → Inlined files root merged →
      Inlined files (line :: root) (("    " ++ line) :: merged)
  | file {m content : String} {files : List (String × String)} {root merged : Lines} :
    Inlined files root merged →
      Inlined ((m, content) :: files) (("pub mod " ++ identifier m ++ ";") :: root)
        (("    pub mod " ++ identifier m ++ " \x7b") :: (Text.lines content).map (indentBy "        ")
          ++ "    \x7d" :: merged)

/-- A line without an indentation of eight blanks. -/
def dropIndent (line : String) : String := String.ofList (line.toList.drop 8)

theorem dropIndent_indentBy (line : String) : dropIndent (indentBy "        " line) = line := by
  unfold dropIndent indentBy
  split_ifs with hempty
  · rw [String.isEmpty_iff.mp hempty]
    rfl
  · simp

theorem inlined?_module {b : Bundle} (hm : ∀ c ∈ m.toList, 47 < c.toNat)
    (hfile : b.files.get? (fileName m) = some content) :
    b.inlined? ("pub mod " ++ identifier m ++ ";") = some (identifier m, content) := by
  have hmark : '#' ∉ m.toList := fun hmem => absurd (hm _ hmem) (by decide)
  have hline : ("pub mod " ++ identifier m ++ ";").toList =
      "pub mod ".toList ++ ((identifier m).toList ++ [';']) := by simp
  have hstart : Text.stripStart? "pub mod ".toList ("pub mod ".toList ++ ((identifier m).toList ++ [';']))
      = some ((identifier m).toList ++ [';']) := by simp [Text.stripStart?]
  have hend : Text.stripEnd? [';'] ((identifier m).toList ++ [';']) = some (identifier m).toList := by
    simp [Text.stripEnd?]
  rw [inlined?, hline, hstart]
  simp [hend, dropRawMarks_identifier hmark, hfile]

theorem mergedLine_module {b : Bundle} (hm : ∀ c ∈ m.toList, 47 < c.toNat)
    (hfile : b.files.get? (fileName m) = some content) :
    b.mergedLine ("pub mod " ++ identifier m ++ ";") =
      ("    pub mod " ++ identifier m ++ " \x7b") ::
        ((Text.lines content).map (indentBy "        ") ++ ["    \x7d"]) := by
  rw [mergedLine, inlined?_module hm hfile]
  rfl

theorem inlined?_eq_none (h : declaresModule line = false) : inlined? b line = none := by
  have hstart : Text.stripStart? "pub mod ".toList line.toList = none :=
    if_neg (show ¬ declaresModule line = true by simp [h])
  rw [inlined?, hstart]
  rfl

theorem inlined_mergedLine {b : Bundle} {fs : List (String × String)} (hroot : ∀ l ∈ root, OneLine l)
    (hfilter : root.filter declaresModule = fs.map fun f => "pub mod " ++ identifier f.1 ++ ";")
    (hfiles : ∀ f ∈ fs, (∀ c ∈ f.1.toList, 47 < c.toNat) ∧ b.files.get? (fileName f.1) = some f.2) :
    Inlined fs root (root.flatMap b.mergedLine) := by
  induction root generalizing fs with
  | nil =>
    obtain rfl := map_eq_nil_iff.mp hfilter.symm
    exact .nil
  | cons line root ih =>
    obtain ⟨hline, hlines⟩ := forall_mem_cons.mp hroot
    by_cases hmodule : declaresModule line = true
    · rw [filter_cons_of_pos hmodule] at hfilter
      obtain ⟨f, fs, rfl, rfl, hrest⟩ := map_eq_cons_iff.mp hfilter.symm
      obtain ⟨⟨hplain, hfile⟩, hfiles⟩ := forall_mem_cons.mp hfiles
      rw [flatMap_cons, mergedLine_module hplain hfile]
      simpa using (ih hlines hrest.symm hfiles).file
    · rw [filter_cons_of_neg hmodule] at hfilter
      have hrest := ih hlines hfilter hfiles
      have hmodule := Bool.eq_false_iff.mpr hmodule
      rw [flatMap_cons, mergedLine, inlined?_eq_none hmodule]
      by_cases hempty : line = ""
      · rw [hempty]
        exact hrest.empty
      · rw [Text.lines_of_oneLine hline hempty]
        simpa [indentBy, hempty] using hrest.line hempty hmodule

end Bundle

theorem chomp_semicolon (line : String) : chomp (line ++ ";") = line ++ ";" := by
  simp [chomp, Text.dropReturn]

/-- **Merging loses nothing.** The merged text is the root file, where each of the other files takes
the place of the line that declares it, and no file comes twice. -/
theorem merged_inlines_once (h : generate c v = .ok b) (hmodule : OneLine c.moduleName)
    (hnames : ∀ name ∈ entryNames v, OneLine name)
    (hmod : "mod" ∉ (entryNames v).map moduleName) :
    ∃ root files merged, b.files.get? rootName = some root ∧
      Bundle.Inlined files (Text.lines root) merged ∧
      b.merged = text (("pub mod " ++ identifier c.moduleName ++ " \x7b") :: merged ++ ["\x7d"]) ∧
      (∀ f ∈ files, b.files.get? (fileName f.1) = some f.2) ∧ b.files.names.Nodup ∧
      b.files.names.Perm (rootName :: files.map (fileName ·.1)) ∧
      ∀ f ∈ files, ((Text.lines f.2).map (Bundle.indentBy "        ")).map Bundle.dropIndent =
        Text.lines f.2 := by
  obtain ⟨s, hs, hroot, hparts⟩ := exists_sources_of_generate h
  have hlines := Text.lines_text_of_oneLine (oneLine_root (c := c) hs hmodule hnames)
  let files := (s.parts c).map fun p => (p.name, text p.content)
  have hnamed : files.map (·.1) = moduleNames v := map_map.trans hs.map_name_parts
  have hdeclared : (Text.lines (text (s.root c))).filter declaresModule =
      files.map fun f => "pub mod " ++ identifier f.1 ++ ";" := by
    have hsame : declaresModule ∘ chomp = declaresModule := funext declaresModule_chomp
    rw [hlines, filter_map, hsame, filter_declaresModule_root hs, ← hnamed, map_map, map_map]
    exact map_congr_left fun f _ => chomp_semicolon _
  have hfiles : ∀ f ∈ files,
      (∀ c ∈ f.1.toList, 47 < c.toNat) ∧ b.files.get? (fileName f.1) = some f.2 := by
    refine forall_mem_map.mpr fun p hp => ?_
    have hname : p.name ∈ moduleNames v := hs.map_name_parts ▸ mem_map_of_mem hp
    exact ⟨toNat_of_mem_moduleNames hname, hparts p hp fun heq =>
      hmod (mod_mem_moduleNames_iff.mp (heq ▸ hname))⟩
  have hone : ∀ l ∈ Text.lines (text (s.root c)), OneLine l := by
    rw [hlines]
    exact forall_mem_map.mpr fun l hl => Text.oneLine_chomp (oneLine_root hs hmodule hnames l hl)
  have hheader : b.module = c.moduleName := by
    obtain ⟨_, _, _, _, rfl⟩ := generate_eq_ok_iff.mp h
    rfl
  refine ⟨_, files, _, hroot, Bundle.inlined_mergedLine hone hdeclared hfiles, ?_,
    fun f hf => (hfiles f hf).2, (nodup_names_of_generate h).1, ?_, fun f _ => ?_⟩
  · rw [Bundle.merged, hroot, hheader]
  · have hnames := (isComplete_of_generate h hmod).names
    rwa [← hnamed, map_map] at hnames
  · rw [map_map]
    exact (map_congr_left fun l _ => Bundle.dropIndent_indentBy l).trans (map_id _)

/-- A length whose name is a reserved word, and an area. -/
def matchAndArea : String := "unit Match \"m\" = <Length>; unit Area \"a\" = Match * Match;"

theorem merged_inlines_once_matchAndArea :
    ∃ d b, compile matchAndArea {} = .ok d ∧ generate {} d.model.fullView = .ok b ∧
      OneLine ({} : Config).moduleName ∧ (∀ name ∈ entryNames d.model.fullView, OneLine name) ∧
      "mod" ∉ (entryNames d.model.fullView).map moduleName ∧
      ∃ root files merged, b.files.get? rootName = some root ∧
        Bundle.Inlined files (Text.lines root) merged ∧
        b.merged = text ("pub mod units \x7b" :: merged ++ ["\x7d"]) ∧
        b.files.names.Perm (rootName :: files.map (fileName ·.1)) := by
  obtain ⟨d, hd, b, hb, hentries⟩ : ∃ d, compile matchAndArea {} = .ok d ∧
      ∃ b, generate {} d.model.fullView = .ok b ∧
        entryNames d.model.fullView = ["Match", "Area"] := by decide +kernel
  have hmodule : OneLine ({} : Config).moduleName := by decide +kernel
  have hnames : ∀ name ∈ entryNames d.model.fullView, OneLine name := by
    rw [hentries]
    decide +kernel
  have hmod : "mod" ∉ (entryNames d.model.fullView).map moduleName := by
    rw [hentries]
    decide +kernel
  obtain ⟨root, files, merged, hroot, hinlined, hmerged, -, -, hperm, -⟩ :=
    merged_inlines_once hb hmodule hnames hmod
  exact ⟨d, b, hd, hb, hmodule, hnames, hmod, root, files, merged, hroot, hinlined, hmerged, hperm⟩

/-- A view with a name of three lines for its units. -/
def threeLineName (v : View) : View :=
  { v with units := v.units.map ({ · with name := "A\npub mod dimension;\nB" }) }

theorem exportLine_sublist_root {s : Sources} (hs : s.Of v) (hname : name ∈ entryNames v) :
    ["pub mod dimension;", exportLine name] <+ s.root c := by
  rw [hs.entryNames_eq] at hname
  have hexport := singleton_sublist.mpr (mem_map_of_mem (f := exportLine) hname)
  iterate 5 refine Sublist.trans ?_ (sublist_append_left _ _)
  refine @Sublist.append _ ["pub mod dimension;"] _ _ _ (singleton_sublist.mpr ?_) hexport
  simp

/-- **A name that is not on one line may declare a module**, whose file comes twice then. -/
theorem merged_inlines_twice :
    ∃ d b ls, compile "unit A \"a\" = <Length>;" {} = .ok d ∧
      generate {} (threeLineName d.model.fullView) = .ok b ∧ OneLine ({} : Config).moduleName ∧
      "mod" ∉ (entryNames (threeLineName d.model.fullView)).map moduleName ∧
      b.merged = text ls ∧
      ["    pub mod dimension \x7b", "    pub mod dimension \x7b"] <+ ls := by
  obtain ⟨d, hd, b, hb, hentries⟩ : ∃ d, compile "unit A \"a\" = <Length>;" {} = .ok d ∧
      ∃ b, generate {} (threeLineName d.model.fullView) = .ok b ∧
        entryNames (threeLineName d.model.fullView) = ["A\npub mod dimension;\nB"] := by
    decide +kernel
  have hmod : "mod" ∉ (entryNames (threeLineName d.model.fullView)).map moduleName := by
    rw [hentries]
    decide +kernel
  obtain ⟨s, hs, hroot, -⟩ := exists_sources_of_generate hb
  refine ⟨d, b, _, hd, hb, by decide +kernel, hmod, by rw [Bundle.merged, hroot], ?_⟩
  have hlines : ["pub mod dimension;", "pub mod dimension;"] <+ Text.lines (text (s.root {})) := by
    have hname : "A\npub mod dimension;\nB" ∈ entryNames (threeLineName d.model.fullView) :=
      hentries ▸ mem_cons_self
    rw [Text.lines_text]
    refine Sublist.trans ?_ ((exportLine_sublist_root hs hname).flatMap _)
    decide +kernel
  have hfile : "dimension.rs" = fileName "dimension" := rfl
  have hdimension := (isComplete_of_generate hb hmod).dimension
  rw [hfile] at hdimension
  have hblock := Bundle.mergedLine_module (by simp) hdimension
  have hfirst : ["    pub mod dimension \x7b"] <+ b.mergedLine "pub mod dimension;" :=
    singleton_sublist.mpr (hblock ▸ mem_cons_self)
  have hmerged := hlines.flatMap b.mergedLine
  rw [flatMap_cons, flatMap_singleton] at hmerged
  exact (((hfirst.append hfirst).trans hmerged).trans (sublist_cons_self _ _)).trans
    (sublist_append_left _ _)

end Source

end Quantity
