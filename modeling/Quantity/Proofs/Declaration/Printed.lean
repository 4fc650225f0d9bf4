import Quantity.Proofs.Declaration.Words
import Quantity.Proofs.Token.Literals

/-!
# Definitions are printed as they are read

The text of an expression puts no parentheses around operands: those that are needed are part of the
expression. So the text of a definition that was read is cut into the tokens of the same definition
(`Expr.Printed`), and declares it again, at other places (`Declarations.read_printed`).
-/

namespace Quantity

open Grammar

def Expr.unplaced (e : Expr) : Expr := e.move fun _ => {}

/-! ### Lexemes of a text -/

namespace Lexeme

variable {c : Char} {cs rest : List Char}

def blankCodes : List Nat :=
  [9, 10, 11, 12, 13, 0x20, 0x85, 0xA0, 0x1680, 0x2000, 0x2001, 0x2002, 0x2003, 0x2004, 0x2005,
   0x2006, 0x2007, 0x2008, 0x2009, 0x200A, 0x2028, 0x2029, 0x202F, 0x205F, 0x3000]

theorem mem_blankCodes (h : Text.isBlank c = true) : c.toNat ∈ blankCodes := by
  unfold Text.isBlank at h
  split_ifs at h
  · simp only [Bool.or_eq_true, decide_eq_true_eq, Bool.and_eq_true] at h
    rcases h with rfl | h
    · decide
    · simp only [blankCodes, List.mem_cons]
      omega
  · simp [Text.inRanges, Text.whitespaceRanges, Text.CharRange.contains, Nat.mod_one] at h
    simp only [blankCodes, List.mem_cons]
    omega

theorem not_isBlank (h : continuesName c = true) : Text.isBlank c = false := by
  by_contra hblank
  have hall : blankCodes.all (fun n => !continuesName (Char.ofNat n)) = true := by decide +kernel
  have hc := List.all_eq_true.mp hall _ (mem_blankCodes (Bool.eq_true_of_not_eq_false hblank))
  rw [Char.ofNat_toNat, h] at hc
  cases hc

theorem cutOff_name (hc : startsName c = true) (hcs : ∀ x ∈ cs, continuesName x = true)
    (hrest : ∀ x ∈ rest.head?, continuesName x = false) :
    CutOff (.identifier false) (c :: cs) (c :: cs) rest := by
  refine ⟨c, cs, rfl, ?_⟩
  have hblank := not_isBlank (continuesName_of_startsName hc)
  have hslash : c ≠ '/' := by
    rintro rfl
    cases hc
  have hquote : c ≠ '"' := by
    rintro rfl
    cases hc
  have hat : c ≠ '@' := by
    rintro rfl
    cases hc
  obtain ⟨htake, hdrop⟩ := takeWhile_append_stop hcs hrest
  rw [scan, if_neg (by simp [hblank]), if_neg hslash, if_neg hquote, if_neg hat, if_pos hc, name,
    htake, hdrop]
  rfl

theorem cutOff_identifier (hs : IsIdentifier s)
    (hrest : ∀ x ∈ rest.head?, continuesName x = false) :
    CutOff (.identifier false) s.toList s.toList rest := by
  obtain ⟨hhead, hword⟩ := hs
  unfold IsWord at hword
  cases hchars : s.toList with
  | nil =>
    rw [hchars] at hhead
    cases hhead
  | cons c cs =>
    rw [hchars] at hhead hword
    exact cutOff_name hhead (fun x hx => hword x (List.mem_cons_of_mem c hx)) hrest

end Lexeme

/-! ### Texts that are cut into tokens -/

namespace Token

open Lexeme

variable {R Q : List Token → Prop} {cs ds rest : List Char}

/-- **The text is cut into well-formed tokens** in front of what follows, wherever it stands; the
relation says which ones, blanks apart. -/
def Cuts (R : List Token → Prop) (cs rest : List Char) : Prop :=
  ∀ p, ∃ us, allFrom p (cs ++ rest) = us ++ allFrom (p.after cs) rest ∧
    (∀ u ∈ us, ∀ e, u.kind ≠ .error e) ∧ R (us.filter fun t => !t.kind.isTrivia)

theorem Cuts.mono (h : Cuts R cs rest) (hR : ∀ ts, R ts → Q ts) : Cuts Q cs rest := by
  intro p
  obtain ⟨us, hall, hsound, hus⟩ := h p
  exact ⟨us, hall, hsound, hR _ hus⟩

theorem head_of_cutOff {kind : TokenKind} {value : List Char} (h : CutOff kind value cs rest)
    (hkind : kind ≠ .whitespace) : ∃ c ∈ cs.head?, Text.isBlank c = false := by
  obtain ⟨c, tail, rfl, hscan⟩ := h
  refine ⟨c, rfl, ?_⟩
  by_contra hblank
  rw [scan, if_pos (Bool.eq_true_of_not_eq_false hblank)] at hscan
  exact hkind (congrArg Lexeme.kind hscan).symm

theorem head_append {p : Char → Prop} (h : ∃ c ∈ cs.head?, p c) (ds : List Char) :
    ∃ c ∈ (cs ++ ds).head?, p c := by
  obtain ⟨c, hc, hp⟩ := h
  refine ⟨c, ?_, hp⟩
  rw [List.head?_append, Option.mem_def.mp hc]
  rfl

theorem Cuts.append (h : Cuts R cs (ds ++ rest)) (h' : Cuts Q ds rest) :
    Cuts (fun ts => ∃ us vs, ts = us ++ vs ∧ R us ∧ Q vs) (cs ++ ds) rest := by
  intro p
  obtain ⟨us, hall, hsound, hus⟩ := h p
  obtain ⟨vs, hall', hsound', hvs⟩ := h' (p.after cs)
  refine ⟨us ++ vs, ?_, List.forall_mem_append.mpr ⟨hsound, hsound'⟩, _, _, List.filter_append ..,
    hus, hvs⟩
  rw [List.append_assoc, hall, hall', Position.after_append, List.append_assoc]

theorem cuts_token {kind : TokenKind} {value : List Char} (h : CutOff kind value cs rest)
    (hkind : ∀ e, kind ≠ .error e) (htrivia : kind.isTrivia = false) :
    Cuts (fun ts => ∃ t : Token, ts = [t] ∧ t.kind = kind ∧ t.value = String.ofList value) cs rest := by
  intro p
  have hfilter (t : Token) (ht : t.kind = kind) : [t].filter (fun t => !t.kind.isTrivia) = [t] := by
    simp [ht, htrivia]
  exact ⟨[_], allFrom_cutOff h p, List.forall_mem_singleton.mpr hkind, _, hfilter _ rfl, rfl, rfl⟩

theorem Cuts.spaced (h : Cuts R cs rest) (hhead : ∃ c ∈ cs.head?, Text.isBlank c = false) :
    Cuts R (' ' :: cs) rest := by
  obtain ⟨c, hc, hblank⟩ := hhead
  have hspace : CutOff .whitespace [' '] [' '] (cs ++ rest) := by
    cases cs with
    | nil => cases hc
    | cons d cs =>
      cases hc
      refine ⟨' ', [], rfl, ?_⟩
      rw [List.nil_append, scan, List.cons_append,
        List.takeWhile_cons_of_neg (by simp [hblank]), List.dropWhile_cons_of_neg (by simp [hblank])]
      rfl
  intro p
  obtain ⟨us, hall, hsound, hus⟩ := h (p.after [' '])
  have hall : allFrom p (' ' :: (cs ++ rest)) = _ := (allFrom_cutOff hspace p).trans (by rw [hall])
  exact ⟨_ :: us, hall, List.forall_mem_cons.mpr ⟨by simp, hsound⟩, hus⟩

end Token

/-! ### Expressions -/

/-- Behind an expression there is a space, a closing parenthesis or a semicolon. -/
def Delimited (rest : List Char) : Prop := ∃ c ∈ rest.head?, c = ' ' ∨ c = ')' ∨ c = ';'

theorem Delimited.head {rest : List Char} (h : Delimited rest) {p : Char → Prop} (hspace : p ' ')
    (hclose : p ')') (hsemicolon : p ';') : ∀ c ∈ rest.head?, p c := by
  obtain ⟨c, hc, hdelimiter⟩ := h
  intro d hd
  obtain rfl := Option.mem_unique hd hc
  rcases hdelimiter with rfl | rfl | rfl
  · exact hspace
  · exact hclose
  · exact hsemicolon

namespace Expr

open Token Lexeme

/-- **The text of the expression is cut into tokens of it**, if it ends there. -/
structure Printed (R : List Token → Expr → Prop) (e : Expr) : Prop where
  head : ∃ c ∈ e.text.toList.head?, Text.isBlank c = false
  cuts : ∀ {rest}, Delimited rest →
    Cuts (fun ts => ∃ e', R ts e' ∧ e'.unplaced = e.unplaced) e.text.toList rest

variable {R : List Token → Expr → Prop} {s : String} {span : Span} {e l r : Expr}

theorem printed_leaf (kind : TokenKind) (value : List Char)
    (hcut : ∀ {rest}, Delimited rest → CutOff kind value e.text.toList rest)
    (hkind : ∀ e, kind ≠ .error e) (htrivia : kind.isTrivia = false)
    (hterm : ∀ t : Token, t.kind = kind → t.value = String.ofList value →
      ∃ e', DimensionTerm [t] e' ∧ e'.unplaced = e.unplaced) : Printed DimensionTerm e := by
  refine ⟨head_of_cutOff (@hcut [' '] ⟨' ', rfl, .inl rfl⟩) ?_, fun hrest => ?_⟩
  · rintro rfl
    cases htrivia
  · refine (cuts_token (hcut hrest) hkind htrivia).mono ?_
    rintro _ ⟨t, rfl, ht, hvalue⟩
    exact hterm t ht hvalue

theorem printed_number {n : NumeralText} (hn : s.toList = n.chars) :
    Printed DimensionTerm (number s span) := by
  refine printed_leaf .number s.toList (fun hrest => ?_) (by simp) rfl
    fun t ht hvalue => ⟨_, .number ht, ?_⟩
  · show CutOff _ _ s.toList _
    rw [hn]
    exact cutOff_numeral ⟨hrest.head rfl rfl rfl, fun _ => hrest.head (by decide) (by decide) (by decide),
      fun _ _ => hrest.head (by decide) (by decide) (by decide)⟩
  · rw [hvalue, String.ofList_toList]
    rfl

theorem printed_literal (hs : ∀ c ∈ s.toList, c ≠ '"' ∧ c ≠ '\\' ∧ c ≠ '\n') :
    Printed DimensionTerm (literal s span) := by
  have htext : (literal s span).text.toList = '"' :: (s.toList.flatMap (fun c => [c]) ++ ['"']) := by
    simp [text]
  refine printed_leaf .string s.toList (fun _ => ?_) (by simp) rfl
    fun t ht hvalue => ⟨_, .string ht, ?_⟩
  · rw [htext]
    refine cutOff_string (fun c hc => ?_) _
    obtain ⟨hquote, hslash, hline⟩ := hs c hc
    exact stringBody_plain hquote hslash hline
  · rw [hvalue, String.ofList_toList]
    rfl

theorem printed_reference (hs : IsIdentifier s) (hconstant : isNamedConstant s = false) :
    Printed DimensionTerm (reference s span) := by
  refine printed_leaf (.identifier false) s.toList
    (fun hrest => cutOff_identifier hs (hrest.head (by decide) (by decide) (by decide))) (by simp) rfl
    fun t ht hvalue => ?_
  rw [String.ofList_toList] at hvalue
  refine ⟨_, .reference ⟨⟨false, ht⟩, fun h => ?_⟩, by rw [hvalue]; rfl⟩
  rw [← hvalue, h.2] at hconstant
  cases hconstant

theorem isIdentifier_name (m : Magnitude) : IsIdentifier m.name := by
  have hall : (m.name.toList.head?.any startsName && m.name.toList.all continuesName) = true := by
    cases m <;> decide
  obtain ⟨hhead, hword⟩ := Bool.and_eq_true_iff.mp hall
  exact ⟨hhead, List.all_eq_true.mp hword⟩

theorem printed_magnitude (m : Option Magnitude) : Printed DimensionTerm (magnitude m span) := by
  have hless (rest : List Char) : CutOff .less ['<'] ['<'] rest := ⟨'<', [], rfl, rfl⟩
  have hgreater (rest : List Char) : CutOff .greater ['>'] ['>'] rest := ⟨'>', [], rfl, rfl⟩
  have hopen (rest : List Char) := cuts_token (hless rest) (by simp) rfl
  have hclose (rest : List Char) := cuts_token (hgreater rest) (by simp) rfl
  cases m with
  | none =>
    have htext : (magnitude none span).text.toList = ['<'] ++ ['>'] := by simp [text]
    refine ⟨⟨'<', by rw [htext]; rfl, by decide⟩, fun {rest} _ => ?_⟩
    rw [htext]
    refine ((hopen _).append (hclose rest)).mono ?_
    rintro _ ⟨_, _, rfl, ⟨o, rfl, ho, -⟩, c, rfl, hc, -⟩
    exact ⟨_, .plain ho hc, rfl⟩
  | some m =>
    have htext : (magnitude (some m) span).text.toList = ['<'] ++ (m.name.toList ++ ['>']) := by
      simp [text]
    refine ⟨⟨'<', by rw [htext]; rfl, by decide⟩, fun {rest} _ => ?_⟩
    have hname := cuts_token (cutOff_identifier (isIdentifier_name m)
      (by rintro _ ⟨⟩; decide : ∀ x ∈ (['>'] ++ rest).head?, _)) (by simp) rfl
    rw [htext]
    refine ((hopen _).append (hname.append (hclose rest))).mono ?_
    rintro _ ⟨_, _, rfl, ⟨o, rfl, ho, -⟩, _, _, rfl, ⟨t, rfl, ht, hvalue⟩, c, rfl, hc, -⟩
    rw [String.ofList_toList] at hvalue
    have hm : Magnitude.ofName? t.value = some m := by
      rw [hvalue]
      cases m <;> decide
    exact ⟨_, .magnitude ho ⟨false, ht⟩ hm hc, rfl⟩

theorem Printed.paren (h : Printed DimensionPhrase e) : Printed DimensionTerm (paren e) := by
  have hopen (rest : List Char) : CutOff .openParen ['('] ['('] rest := ⟨'(', [], rfl, rfl⟩
  have hclose (rest : List Char) : CutOff .closeParen [')'] [')'] rest := ⟨')', [], rfl, rfl⟩
  have htext : (Expr.paren e).text.toList = ['('] ++ (e.text.toList ++ [')']) := by
    simp [text]
  refine ⟨⟨'(', by rw [htext]; rfl, by decide⟩, fun {rest} _ => ?_⟩
  rw [htext]
  refine ((cuts_token (hopen _) (by simp) rfl).append
    ((h.cuts ⟨')', rfl, .inr (.inl rfl)⟩).append (cuts_token (hclose rest) (by simp) rfl))).mono ?_
  rintro _ ⟨_, _, rfl, ⟨o, rfl, ho, -⟩, us, _, rfl, ⟨e', he', heq⟩, c, rfl, hc, -⟩
  exact ⟨_, .group ho he' hc, congrArg Expr.paren heq⟩

theorem Printed.single (h : Printed DimensionTerm e) : Printed DimensionPhrase e := by
  refine ⟨h.head, fun hrest => (h.cuts hrest).mono ?_⟩
  rintro ts ⟨e', he', heq⟩
  exact ⟨e', .single he', heq⟩

theorem cutOff_sign (hop : op = .product ∨ op = .quotient) (rest : List Char) :
    ∃ kind, ProductSign kind op ∧
      CutOff kind op.symbol.toList op.symbol.toList (' ' :: rest) := by
  rcases hop with rfl | rfl
  · exact ⟨.times, .times, '*', [], rfl, rfl⟩
  · exact ⟨.divide, .divide, '/', [], rfl, rfl⟩

theorem Printed.join (hop : op = .product ∨ op = .quotient) (hl : Printed DimensionPhrase l)
    (hr : Printed DimensionTerm r) : Printed DimensionPhrase (arith op l r) := by
  have htext : (arith op l r).text.toList =
      l.text.toList ++ (' ' :: (op.symbol.toList ++ (' ' :: r.text.toList))) := by
    simp [text]
  refine ⟨htext ▸ head_append hl.head _, fun {rest} hrest => ?_⟩
  obtain ⟨kind, hsign, hcut⟩ := cutOff_sign hop (r.text.toList ++ rest)
  have hkind : (∀ e, kind ≠ .error e) ∧ kind.isTrivia = false ∧ kind ≠ .whitespace := by
    cases hsign <;> simp [TokenKind.isTrivia]
  have hright := (cuts_token hcut hkind.1 hkind.2.1).append ((hr.cuts hrest).spaced hr.head)
  have hspaced := hright.spaced (head_append (head_of_cutOff hcut hkind.2.2) _)
  rw [htext]
  refine ((hl.cuts ⟨' ', rfl, .inl rfl⟩).append hspaced).mono ?_
  rintro _ ⟨us, _, rfl, ⟨l', hl', hleft⟩, _, vs, rfl, ⟨t, rfl, rfl, -⟩, r', hr', hright⟩
  refine ⟨.arith op l' r', hl'.join hsign hr', ?_⟩
  show arith op l'.unplaced r'.unplaced = arith op l.unplaced r.unplaced
  rw [hleft, hright]

/-- What stands for expressions of a level, if there are no sums. -/
def phraseOf : Level → List Token → Expr → Prop
  | .factor => DimensionTerm
  | _ => DimensionPhrase

/-- **A definition that was read is printed as it is**, if its names and texts in quotes can be
written as they are. -/
theorem printed_of_shaped {text : String} (h : e.Shaped (Token.all text) False level)
    (hliterals : ∀ s ∈ e.literals, ∀ c ∈ s.toList, c ≠ '"' ∧ c ≠ '\\' ∧ c ≠ '\n')
    (hreferences : ∀ s ∈ e.references, IsIdentifier s ∧ isNamedConstant s = false) :
    Printed (phraseOf level) e := by
  induction h with
  | @leaf e h =>
    cases e with
    | number s _ =>
      obtain ⟨t, ht, hkind, rfl⟩ := h
      obtain ⟨n, hn⟩ := exists_numeral_of_mem ht hkind
      exact printed_number hn
    | literal s _ => exact printed_literal (hliterals s (List.mem_singleton_self s))
    | magnitude m _ => exact printed_magnitude m
    | reference s _ =>
      obtain ⟨hs, hconstant⟩ := hreferences s (List.mem_singleton_self s)
      exact printed_reference hs hconstant
    | _ => exact h.elim
  | signed hsums | sum hsums => exact hsums.elim
  | paren _ ih => exact (ih hliterals hreferences).paren
  | ofFactor _ ih => exact (ih hliterals hreferences).single
  | ofProduct _ ih => exact ih hliterals hreferences
  | product hop _ _ ihl ihr =>
    obtain ⟨hll, hlr⟩ := List.forall_mem_append.mp hliterals
    obtain ⟨hrl, hrr⟩ := List.forall_mem_append.mp hreferences
    exact .join hop (ihl hll hrl) (ihr hlr hrr)

theorem nesting_move (f : Span → Span) (e : Expr) : (e.move f).nesting = e.nesting := by
  induction e with
  | number | literal | magnitude | reference => rfl
  | signed _ e ih | paren e ih => exact congrArg (· + 1) ih
  | arith op l r ihl ihr => rw [move, nesting, nesting, ihl, ihr]

theorem nesting_eq {e e' : Expr} (h : e'.unplaced = e.unplaced) : e'.nesting = e.nesting := by
  rw [← nesting_move (fun _ => {}) e', ← nesting_move (fun _ => {}) e]
  exact congrArg nesting h

end Expr

/-! ### Declarations -/

namespace Declarations

open Token Lexeme

/-- The tokens declare the unit that is defined by the expression. -/
def Declares (e : Expr) (ts : List Token) : Prop :=
  ∃ u : UnitDecl, UnitDeclaration ts u ∧ u.name = "X" ∧ u.tags = ["x"] ∧ u.kind = none ∧
    u.format = none ∧ u.alternatives = [] ∧ u.definition.unplaced = e.unplaced

/-- The declaration of a unit with this definition. -/
def printed (e : Expr) : String := "unit X \"x\" = " ++ e.text ++ ";"

theorem cuts_printed (h : e.Printed DimensionPhrase) : Cuts (Declares e) (printed e).toList [] := by
  have hstop : CutOff .semicolon [';'] [';'] [] := ⟨';', [], rfl, rfl⟩
  have hequal (rest : List Char) : CutOff .equal ['='] ['='] rest := ⟨'=', [], rfl, rfl⟩
  have htag (rest : List Char) : CutOff .string ['x'] ['"', 'x', '"'] rest :=
    cutOff_string (fun c _ => stringBody_escape c) rest
  have hword (c : Char) (cs : List Char) (hc : startsName c = true)
      (hcs : cs.all continuesName = true) (rest : List Char) :
      CutOff (.identifier false) (c :: cs) (c :: cs) (' ' :: rest) :=
    cutOff_name hc (List.all_eq_true.mp hcs) (by rintro _ ⟨⟩; decide)
  -- from the semicolon to the keyword
  have hcuts := (h.cuts ⟨';', rfl, .inr (.inr rfl)⟩).append (cuts_token hstop (by simp) rfl)
  have hcuts := (cuts_token (hequal _) (by simp) rfl).append (hcuts.spaced (head_append h.head _))
  have hcuts := (cuts_token (htag _) (by simp) rfl).append (hcuts.spaced ⟨'=', rfl, by decide⟩)
  have hcuts := (cuts_token (hword 'X' [] (by decide) rfl _) (by simp) rfl).append
    (hcuts.spaced ⟨'"', rfl, by decide⟩)
  have hcuts := (cuts_token (hword 'u' ['n', 'i', 't'] (by decide) (by decide) _)
    (by simp) rfl).append (hcuts.spaced ⟨'X', rfl, by decide⟩)
  have htext : (printed e).toList = ['u', 'n', 'i', 't'] ++ ' ' :: (['X'] ++ ' ' ::
      (['"', 'x', '"'] ++ ' ' :: (['='] ++ ' ' :: (e.text.toList ++ [';'])))) := by
    simp [printed]
  rw [htext]
  refine hcuts.mono ?_
  rintro _ ⟨_, _, rfl, ⟨start, rfl, hstart, hunit⟩, _, _, rfl, ⟨name, rfl, hname, hX⟩, _, _, rfl,
    ⟨tag, rfl, htag, hx⟩, _, _, rfl, ⟨equal, rfl, hequal, -⟩, ds, _, rfl, ⟨e', he', heq⟩, stop, rfl,
    hstop, -⟩
  have hkeyword : start.isKeyword .unit = true := by
    rw [isKeyword, hstart, hunit]
    decide
  exact ⟨_, @UnitDeclaration.mk start name equal stop [] [tag] [] ds [] _ _ _ _ _ hkeyword .absent
    ⟨false, hname⟩ (.cons htag .nil) (List.cons_ne_nil _ _) .absent hequal he' .nil hstop,
    hX, by simp [hx], rfl, rfl, rfl, heq⟩

/-- **Definitions are printed as they are read.** For each definition of a unit in any text, if its
texts in quotes have no quote, backslash or line feed and its references are identifiers other than
constants: declaring a unit by the text of the definition is free of faults, and gives a unit with
this definition, at other places. -/
theorem read_printed {source : Option String} {text : String} {e : Expr}
    (he : e ∈ (read source text).1.definitions)
    (hliterals : ∀ s ∈ e.literals, ∀ c ∈ s.toList, c ≠ '"' ∧ c ≠ '\\' ∧ c ≠ '\n')
    (hreferences : ∀ s ∈ e.references, IsIdentifier s ∧ isNamedConstant s = false)
    (other : Option String) :
    ∃ u : UnitDecl, read other ("unit X \"x\" = " ++ e.text ++ ";") =
      ({ units := [u] }, { source := other }) ∧ u.name = "X" ∧ u.tags = ["x"] ∧ u.kind = none ∧
        u.format = none ∧ u.alternatives = [] ∧ u.definition.unplaced = e.unplaced := by
  have hshaped : e.Shaped (Token.all text) False .product := shaped_definition he
  have hprinted := Expr.printed_of_shaped hshaped hliterals hreferences
  obtain ⟨us, hall, hsound, u, hu, hrest⟩ := cuts_printed hprinted .start
  obtain ⟨d, hd, hmem⟩ := List.mem_flatMap.mp he
  have hshallow : u.IsShallow := by
    intro e' he'
    obtain ⟨-, -, -, -, halternatives, heq⟩ := hrest
    rw [UnitDecl.definitions, halternatives, List.mem_singleton] at he'
    rw [he', Expr.nesting_eq heq]
    exact ((read_grammatical source text).units d hd).1 e hmem
  rw [List.append_nil, allFrom.eq_1] at hall
  have hsignificant : significant (printed e) = us.filter (fun t => !t.kind.isTrivia) ++ [] ++
      [⟨.eof, "", Span.ofText (Position.start.after (printed e).toList) []⟩] := by
    rw [significant, all, hall, List.filter_append, List.append_nil]
    rfl
  refine ⟨u, (read_eq_iff other (printed e) _).mpr
    ⟨?_, _, _, hsignificant, rfl, .unit hu hshallow .nil⟩, hrest⟩
  rw [all, hall]
  exact List.forall_mem_append.mpr ⟨hsound, List.forall_mem_singleton.mpr (by simp)⟩

/-- Rates for a distance, with a constant and a numeral of all parts. -/
def rates : String := "unit Rate \"r\" = (\"Per cent\" * 2.5e-3 / pi) / <L> * @Meter;"

/-- The constant comes back as a text in quotes, and the magnitude under its full name. -/
theorem read_printed_rates : ∃ e, e ∈ (read none rates).1.definitions ∧
    e.text = "(\"Per cent\" * 2.5e-3 / \"pi\") / <Length> * Meter" ∧
    ∃ u : UnitDecl, read none ("unit X \"x\" = " ++ e.text ++ ";") =
      ({ units := [u] }, {}) ∧ u.name = "X" ∧ u.tags = ["x"] ∧ u.kind = none ∧
        u.format = none ∧ u.alternatives = [] ∧ u.definition.unplaced = e.unplaced := by
  obtain ⟨e, he, htext, hliterals, hreferences⟩ : ∃ e ∈ (read none rates).1.definitions,
      e.text = "(\"Per cent\" * 2.5e-3 / \"pi\") / <Length> * Meter" ∧
        e.literals = ["Per cent", "pi"] ∧ e.references = ["Meter"] := by
    decide +kernel
  refine ⟨e, he, htext, read_printed he ?_ ?_ none⟩
  · rw [hliterals]
    simp
  · rw [hreferences, List.forall_mem_singleton]
    exact ⟨⟨by decide +kernel, List.all_eq_true.mp (by decide +kernel)⟩, by decide⟩

end Declarations

end Quantity
