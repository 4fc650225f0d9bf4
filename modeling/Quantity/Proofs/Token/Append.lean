import Quantity.Proofs.Span
import Quantity.Token.Lexer
import Mathlib.Data.List.Basic

/-!
# The tokens of a text and of what follows it

A lexeme goes as far as it can, so what follows a text can change its last token: a name goes on, a
comment is not closed. All other lexemes are the same whatever follows (`scan_followed`), and so is a
semicolon, which is a lexeme of its own. So the tokens of a text that ends in a semicolon are followed
by those of the next text, moved behind it (`significant_append`).
-/

namespace Quantity

open List

/-! ### One lexeme -/

namespace Lexeme

variable {c : Char} {cs : List Char}

/-- The lexeme with more text behind it. -/
def followedBy (l : Lexeme) (more : List Char) : Lexeme := { l with rest := l.rest ++ more }

section Until

variable {p : Char → Bool}

theorem takeWhile_append_of_ne_nil (h : cs.dropWhile p ≠ []) (more : List Char) :
    (cs ++ more).takeWhile p = cs.takeWhile p := by
  induction cs with
  | nil => exact absurd rfl h
  | cons c cs ih =>
    rw [cons_append]
    cases hc : p c with
    | true =>
      rw [dropWhile_cons_of_pos hc] at h
      rw [takeWhile_cons_of_pos hc, takeWhile_cons_of_pos hc, ih h]
    | false => simp [hc]

theorem dropWhile_append_of_ne_nil (h : cs.dropWhile p ≠ []) (more : List Char) :
    (cs ++ more).dropWhile p = cs.dropWhile p ++ more := by
  rw [dropWhile_append, if_neg (by simpa using h)]

theorem dropWhile_of_takeWhile_nil (h : cs.takeWhile p = []) : cs.dropWhile p = cs := by
  have hsplit := takeWhile_append_dropWhile (p := p) (l := cs)
  rwa [h] at hsplit

end Until

/-! ### Scanners -/

/-- **A lexeme that is the same whatever follows the text**, unless it is the last one. -/
structure IsLocal (scan : List Char → Lexeme) : Prop where
  nil : (scan []).rest = []
  append {cs : List Char} : (scan cs).rest ≠ [] → ∀ more,
    scan (cs ++ more) = (scan cs).followedBy more

section Scanners

variable {p : Char → Bool} {none : List Char → Lexeme} {some : List Char → List Char → Lexeme}

theorem isLocal_plain (k : TokenKind) (c : Char) (text : List Char) : IsLocal (plain k c text) :=
  ⟨rfl, fun _ _ => rfl⟩

theorem isLocal_while (h : ∀ run, IsLocal (some run)) :
    IsLocal fun cs => some (cs.takeWhile p) (cs.dropWhile p) := by
  refine ⟨(h []).nil, fun {cs} hrest more => ?_⟩
  have hdrop : cs.dropWhile p ≠ [] := by
    intro hnil
    rw [hnil] at hrest
    exact hrest (h _).nil
  rw [takeWhile_append_of_ne_nil hdrop, dropWhile_append_of_ne_nil hdrop]
  exact (h _).append hrest more

/-- A scanner that goes on as long as `p` holds, with another one for where it never does. -/
def ifRun (p : Char → Bool) (none : List Char → Lexeme) (some : List Char → List Char → Lexeme)
    (cs : List Char) : Lexeme :=
  match cs.takeWhile p with
  | [] => none cs
  | run => some run (cs.dropWhile p)

theorem isLocal_ifRun (hnone : IsLocal none) (hsome : ∀ run, IsLocal (some run)) :
    IsLocal (ifRun p none some) := by
  refine ⟨hnone.nil, fun {cs} hrest more => ?_⟩
  unfold ifRun at hrest ⊢
  cases hrun : cs.takeWhile p with
  | nil =>
    rw [hrun] at hrest
    have hdrop : cs.dropWhile p ≠ [] := by
      rw [dropWhile_of_takeWhile_nil hrun]
      rintro rfl
      exact hrest hnone.nil
    rw [takeWhile_append_of_ne_nil hdrop, hrun]
    exact hnone.append hrest more
  | cons d run =>
    rw [hrun] at hrest
    have hdrop : cs.dropWhile p ≠ [] := by
      intro hnil
      rw [hnil] at hrest
      exact hrest (hsome _).nil
    rw [takeWhile_append_of_ne_nil hdrop, dropWhile_append_of_ne_nil hdrop, hrun]
    exact (hsome _).append hrest more

end Scanners

theorem closeComment?_followed {text rest : List Char} (h : closeComment? cs = some (text, rest))
    (more : List Char) : closeComment? (cs ++ more) = some (text, rest ++ more) := by
  fun_induction closeComment? cs generalizing text rest with
  | case1 => cases h
  | case2 cs =>
    cases h
    rfl
  | case3 c cs hne ih =>
    obtain ⟨⟨t, r⟩, hc, heq⟩ := Option.map_eq_some_iff.mp h
    cases heq
    -- a star at the end of the text would not have been enough
    have hne' : ∀ cs', c = '*' → cs ++ more = '/' :: cs' → False := by
      intro cs' hstar hslash
      cases cs with
      | nil => cases hc
      | cons d cs =>
        cases hslash
        exact hne cs hstar rfl
    rw [cons_append, closeComment?.eq_3 _ _ hne', ih hc]
    rfl

/-- The body of a text in quotes is the same whatever follows, if it ends. -/
theorem stringBody_followed (h : (stringBody cs).rest ≠ []) (more : List Char) :
    stringBody (cs ++ more) = { stringBody cs with rest := (stringBody cs).rest ++ more } := by
  fun_induction stringBody cs with
  | case1 => exact absurd rfl h
  | case2 cs => rfl
  | case3 cs => rfl
  | case4 => exact absurd rfl h
  | case5 cs => rfl
  | case6 c cs hne ih =>
    rw [cons_append, cons_append, stringBody, ih h]
    · rfl
    · exact hne
  | case7 c cs hquote hline hslash ih =>
    rw [cons_append, stringBody, ih h]
    · rfl
    · exact hquote
    · exact hline
    · exact hslash

theorem isLocal_quoted : IsLocal quoted := by
  refine ⟨rfl, fun {cs} h more => ?_⟩
  have hbody : (stringBody cs).rest ≠ [] := by
    intro hnil
    unfold quoted at h
    dsimp only at h
    split_ifs at h <;> exact h hnil
  unfold quoted
  dsimp only
  rw [stringBody_followed hbody]
  split_ifs <;> rfl

theorem isLocal_lineComment : IsLocal lineComment := isLocal_while fun _ => isLocal_plain ..

theorem isLocal_slash : IsLocal slash := by
  refine ⟨rfl, fun {cs} h more => ?_⟩
  fun_cases slash cs with
  | case1 cs => exact isLocal_lineComment.append h more
  | case2 cs =>
    show blockComment (cs ++ more) = _
    have h : (blockComment cs).rest ≠ [] := h
    unfold blockComment at h ⊢
    cases hclose : closeComment? cs with
    | none =>
      rw [hclose] at h
      exact absurd rfl h
    | some p =>
      rw [closeComment?_followed hclose]
      rfl
  | case3 _ hline hblock =>
    cases cs with
    | nil => exact absurd rfl h
    | cons c cs =>
      rw [slash]
      · rfl
      · rintro cs' ⟨rfl, -⟩
        exact hline cs rfl
      · rintro cs' ⟨rfl, -⟩
        exact hblock cs rfl

theorem isLocal_verbatimName : IsLocal verbatimName :=
  isLocal_ifRun (isLocal_plain ..) fun _ => ⟨rfl, fun _ _ => rfl⟩

/-- The sign of an exponent, and the rest. -/
def splitSign : List Char → List Char × List Char
  | '+' :: rest => (['+'], rest)
  | '-' :: rest => (['-'], rest)
  | rest => ([], rest)

/-- The digits of an exponent. -/
def exponentDigits (c : Char) (before : List Char) : List Char → Lexeme :=
  ifRun Char.isDigit
    (fun cs => plain (.error .missingExponent) c (before ++ cs.takeWhile continuesName)
      (cs.dropWhile continuesName))
    fun digits => plain .number c (before ++ digits)

theorem exponentPart_cons (c : Char) (before : List Char) (mark : Char) (cs : List Char) :
    exponentPart c before (mark :: cs) =
      if mark = 'e' || mark = 'E' then
        exponentDigits c (before ++ mark :: (splitSign cs).1) (splitSign cs).2
      else plain .number c before (mark :: cs) := rfl

theorem splitSign_followed (h : cs ≠ []) (more : List Char) :
    splitSign (cs ++ more) = ((splitSign cs).1, (splitSign cs).2 ++ more) := by
  fun_cases splitSign cs with
  | case1 => rfl
  | case2 => rfl
  | case3 _ hplus hminus =>
    cases cs with
    | nil => exact absurd rfl h
    | cons d cs =>
      rw [splitSign]
      · rintro rest ⟨rfl, -⟩
        exact hplus cs rfl
      · rintro rest ⟨rfl, -⟩
        exact hminus cs rfl

theorem isLocal_exponentDigits : IsLocal (exponentDigits c before) :=
  isLocal_ifRun (isLocal_while fun _ => isLocal_plain ..) fun _ => isLocal_plain ..

theorem isLocal_exponentPart : IsLocal (exponentPart c before) := by
  refine ⟨rfl, fun {cs} h more => ?_⟩
  cases cs with
  | nil => exact absurd rfl h
  | cons mark cs =>
    rw [cons_append]
    rw [exponentPart_cons] at h ⊢
    rw [exponentPart_cons]
    split_ifs at h ⊢
    · have hcs : cs ≠ [] := by
        rintro rfl
        exact h rfl
      rw [splitSign_followed hcs, isLocal_exponentDigits.append h]
    · rfl

theorem isLocal_fractionPart : IsLocal (fractionPart c before) :=
  isLocal_ifRun (isLocal_plain ..) fun _ => isLocal_exponentPart

/-- The part of a number after its first digits. -/
def afterDigits (c : Char) (digits : List Char) : List Char → Lexeme
  | '.' :: rest => fractionPart c (digits ++ ['.']) rest
  | rest => exponentPart c digits rest

theorem number_eq (c : Char) (cs : List Char) :
    number c cs = if c = '.' then fractionPart c [] cs
      else afterDigits c (cs.takeWhile Char.isDigit) (cs.dropWhile Char.isDigit) := rfl

theorem isLocal_afterDigits : IsLocal (afterDigits c digits) := by
  refine ⟨rfl, fun {cs} h more => ?_⟩
  fun_cases afterDigits c digits cs with
  | case1 rest => exact isLocal_fractionPart.append h more
  | case2 _ hdot =>
    rw [afterDigits] at h
    · cases cs with
      | nil => exact absurd rfl h
      | cons d cs =>
        rw [afterDigits]
        · exact isLocal_exponentPart.append h more
        · rintro rest ⟨rfl, -⟩
          exact hdot cs rfl
    · exact hdot

theorem isLocal_number (c : Char) : IsLocal (number c) := by
  by_cases hc : c = '.'
  · rw [show number c = fractionPart c [] from funext fun cs => if_pos hc]
    exact isLocal_fractionPart
  · rw [show number c = _ from funext fun cs => (number_eq c cs).trans (if_neg hc)]
    exact isLocal_while fun _ => isLocal_afterDigits

/-- **A lexeme is the same whatever follows the text**, unless it is the last one. -/
theorem scan_followed (h : (scan c cs).rest ≠ []) (more : List Char) :
    scan c (cs ++ more) = (scan c cs).followedBy more := by
  have hcs : cs ≠ [] := by
    rintro rfl
    have hlength := rest_length_le c []
    exact h (length_eq_zero_iff.mp (Nat.le_zero.mp hlength))
  have hdigit : startsWithDigit (cs ++ more) = startsWithDigit cs := by
    cases cs with
    | nil => exact absurd rfl hcs
    | cons d cs => rfl
  unfold scan at h ⊢
  rw [hdigit]
  split_ifs at h ⊢
  · exact (isLocal_while (isLocal_plain .whitespace c)).append h more
  · exact isLocal_slash.append h more
  · exact isLocal_quoted.append h more
  · exact isLocal_verbatimName.append h more
  · exact (isLocal_while (isLocal_plain (.identifier false) c)).append h more
  · exact (isLocal_number c).append h more
  · rfl

/-! ### What lexemes there are -/

/-- A kind of token that is no name, no text in quotes, and ends neither a declaration nor a text. -/
def isOrdinary : TokenKind → Bool
  | .identifier _ | .string | .semicolon | .eof => false
  | _ => true

/-- **What a lexeme at the front of a text can be.** -/
inductive Scanned (c : Char) (cs : List Char) : Lexeme → Prop
  | ordinary {kind : TokenKind} {tail rest : List Char} : isOrdinary kind = true →
    Scanned c cs (plain kind c tail rest)
  | semicolon : c = ';' → Scanned c cs (plain .semicolon c [] cs)
  | name : startsName c = true → Scanned c cs (name c cs)
  | string {value tail rest : List Char} : Scanned c cs ⟨.string, value, tail, rest⟩
  | verbatim {tail rest : List Char} :
    Scanned c cs ⟨.identifier true, cs.takeWhile continuesName, tail, rest⟩

theorem scanned_symbol (c : Char) (cs : List Char) : Scanned c cs (symbol c cs) := by
  unfold symbol TokenKind.ofSymbol?
  split <;> first | exact .semicolon rfl | exact .ordinary rfl

theorem scanned_exponentPart (c : Char) (before cs all : List Char) :
    Scanned c all (exponentPart c before cs) := by
  cases cs with
  | nil => exact .ordinary rfl
  | cons mark cs =>
    rw [exponentPart_cons]
    split_ifs
    · unfold exponentDigits ifRun
      split <;> exact .ordinary rfl
    · exact .ordinary rfl

theorem scanned_fractionPart (c : Char) (before cs all : List Char) :
    Scanned c all (fractionPart c before cs) := by
  unfold fractionPart
  split
  · exact .ordinary rfl
  · exact scanned_exponentPart _ _ _ _

theorem scanned_number (c : Char) (cs : List Char) : Scanned c cs (number c cs) := by
  rw [number_eq]
  split_ifs
  · exact scanned_fractionPart _ _ _ _
  · unfold afterDigits
    split
    · exact scanned_fractionPart _ _ _ _
    · exact scanned_exponentPart _ _ _ _

theorem scanned_slash (cs : List Char) : Scanned '/' cs (slash cs) := by
  unfold slash
  split
  · exact .ordinary rfl
  · unfold blockComment
    split <;> exact .ordinary rfl
  · exact scanned_symbol '/' cs

theorem scanned_quoted (cs : List Char) : Scanned '"' cs (quoted cs) := by
  unfold quoted
  dsimp only
  split_ifs
  · exact .string
  · exact .ordinary rfl

theorem scanned_verbatimName (cs : List Char) : Scanned '@' cs (verbatimName cs) := by
  unfold verbatimName
  split
  · exact .ordinary rfl
  · exact .verbatim

theorem scanned_scan (c : Char) (cs : List Char) : Scanned c cs (scan c cs) := by
  unfold scan
  split_ifs with _ hslash hquote hat hname
  · exact .ordinary rfl
  · exact hslash ▸ scanned_slash cs
  · exact hquote ▸ scanned_quoted cs
  · exact hat ▸ scanned_verbatimName cs
  · exact .name hname
  · exact scanned_number c cs
  · exact scanned_symbol c cs

theorem scan_kind_ne_eof (c : Char) (cs : List Char) : (scan c cs).kind ≠ .eof := by
  have hscan := scanned_scan c cs
  generalize scan c cs = l at hscan
  cases hscan with
  | ordinary h =>
    rintro rfl
    cases h
  | _ => exact nofun

theorem scan_of_semicolon (h : (scan c cs).kind = .semicolon) : c = ';' ∧ (scan c cs).rest = cs := by
  have hscan := scanned_scan c cs
  generalize scan c cs = l at h hscan
  cases hscan with
  | ordinary hkind =>
    cases h
    cases hkind
  | semicolon hc => exact ⟨hc, rfl⟩
  | _ => cases h

end Lexeme

/-! ### All tokens -/

namespace Token

def move (f : Span → Span) (t : Token) : Token := { t with span := f t.span }

@[simp] theorem kind_move (f : Span → Span) (t : Token) : (t.move f).kind = t.kind := rfl

@[simp] theorem value_move (f : Span → Span) (t : Token) : (t.move f).value = t.value := rfl

@[simp] theorem move_id (t : Token) : t.move id = t := rfl

theorem allFrom_cons (p : Position) (c : Char) (cs : List Char) :
    allFrom p (c :: cs) = ofLexeme p c (Lexeme.scan c cs) ::
      allFrom (p.after (c :: (Lexeme.scan c cs).tail)) (Lexeme.scan c cs).rest := by
  rw [allFrom]

theorem after_scan (p : Position) (c : Char) (cs : List Char) :
    (p.after (c :: (Lexeme.scan c cs).tail)).after (Lexeme.scan c cs).rest = p.after (c :: cs) := by
  rw [← Position.after_append, cons_append, Lexeme.tail_append_rest]

theorem exists_allFrom_eq (p : Position) (cs : List Char) :
    ∃ ts, allFrom p cs = ts ++ [⟨.eof, "", Span.ofText (p.after cs) []⟩] ∧
      ∀ t ∈ ts, t.kind ≠ .eof := by
  fun_induction allFrom p cs with
  | case1 p => exact ⟨[], rfl, nofun⟩
  | case2 p c cs l ih =>
    obtain ⟨ts, hts, hne⟩ := ih
    refine ⟨ofLexeme p c l :: ts, ?_, forall_mem_cons.mpr ⟨Lexeme.scan_kind_ne_eof c cs, hne⟩⟩
    rw [hts, after_scan, cons_append]

theorem exists_scan_of_mem (h : t ∈ allFrom p cs) (hkind : t.kind ≠ .eof) :
    ∃ q c cs', t = ofLexeme q c (Lexeme.scan c cs') := by
  fun_induction allFrom p cs with
  | case1 p => exact absurd (mem_singleton.mp h ▸ rfl) hkind
  | case2 p c cs l ih =>
    rcases mem_cons.mp h with rfl | h
    · exact ⟨p, c, cs, rfl⟩
    · exact ih h

theorem allFrom_behind (p : Position) (h : q.Counts) (cs : List Char) :
    allFrom (p.behind q) cs = (allFrom q cs).map (move (Span.behind p)) := by
  fun_induction allFrom q cs with
  | case1 q =>
    rw [allFrom, map_singleton, move, Span.behind_ofText p h]
  | case2 q c cs l ih =>
    rw [allFrom_cons, ← p.behind_after h, ih (h.after _)]
    refine congrArg (· :: _) ?_
    rw [ofLexeme, ofLexeme, move, Span.behind_ofText p h]

theorem length_allFrom_eq_one_iff : (allFrom p cs).length = 1 ↔ cs = [] := by
  cases cs with
  | nil => simp [allFrom]
  | cons c cs =>
    obtain ⟨ts, hts, -⟩ := exists_allFrom_eq (p.after (c :: (Lexeme.scan c cs).tail))
      (Lexeme.scan c cs).rest
    simp [allFrom_cons, hts]

theorem ne_nil_of_allFrom (h : allFrom p cs = ts ++ [t, e]) : cs ≠ [] := by
  rintro rfl
  have hlength : (allFrom p []).length = 1 := length_allFrom_eq_one_iff.mpr rfl
  rw [h] at hlength
  simp at hlength

/-- **The tokens of a text that ends in a semicolon** are followed by those of the next text. -/
theorem allFrom_append (h : allFrom p as = ts ++ [t, e]) (ht : t.kind = .semicolon)
    (bs : List Char) :
    allFrom p (as ++ bs) = ts ++ t :: allFrom (p.after as) bs := by
  induction p, as using allFrom.induct generalizing ts with
  | case1 p => exact absurd rfl (ne_nil_of_allFrom h)
  | case2 p c cs _ =>
    rename_i ih
    rw [allFrom_cons] at h
    cases ts with
    | nil =>
      -- the semicolon is all of the text
      obtain ⟨rfl, hrest⟩ := List.cons.inj h
      obtain ⟨rfl, hcs⟩ := Lexeme.scan_of_semicolon ht
      have hnil : cs = [] := by
        exact length_allFrom_eq_one_iff.mp (congrArg List.length hrest)
      subst hnil
      rw [cons_append, allFrom_cons]
      rfl
    | cons t' ts =>
      obtain ⟨rfl, hrest⟩ := List.cons.inj h
      rw [cons_append, allFrom_cons, Lexeme.scan_followed (ne_nil_of_allFrom hrest)]
      refine congrArg (ofLexeme p c (Lexeme.scan c cs) :: ·) ?_
      rw [← after_scan p c cs]
      exact ih hrest

theorem all_append (h : all a = ts ++ [t, e]) (ht : t.kind = .semicolon) (b : String) :
    all (a ++ b) = ts ++ t :: (all b).map (move (Span.behind (Position.start.after a.toList))) := by
  have hcounts := Position.counts_start.after a.toList
  rw [all, String.toList_append, allFrom_append h ht, all, ← allFrom_behind _ Position.counts_start,
    Position.behind_start hcounts]

def EndsInSemicolon (text : String) : Prop :=
  ∃ ts t e, all text = ts ++ [t, e] ∧ t.kind = .semicolon

/-- The last one of the tokens is of the kind. -/
def LastIs (kind : TokenKind) (ts : List Token) : Prop :=
  ∃ t, ts.getLast? = some t ∧ t.kind = kind

theorem lastIs_concat (ts : List Token) (t : Token) : LastIs t.kind (ts ++ [t]) :=
  ⟨t, getLast?_concat, rfl⟩

/-- **The tokens of a text that ends in a semicolon, and of a text behind it.** -/
theorem significant_append (h : EndsInSemicolon a) (b : String) :
    ∃ t ts e, LastIs .semicolon (t :: ts) ∧ (∀ u ∈ t :: ts, u.kind ≠ .eof) ∧ e.kind = .eof ∧
      significant a = t :: (ts ++ [e]) ∧ significant (a ++ b) =
        t :: (ts ++ (significant b).map (move (Span.behind (Position.start.after a.toList)))) := by
  obtain ⟨us, u, e, hall, hu⟩ := h
  obtain ⟨vs, hvs, hne⟩ := exists_allFrom_eq .start a.toList
  have hsplit : vs ++ [⟨.eof, "", Span.ofText (Position.start.after a.toList) []⟩] =
      (us ++ [u]) ++ [e] := by
    rw [← hvs, List.append_assoc]
    exact hall
  obtain ⟨rfl, hend⟩ := append_inj' hsplit rfl
  have he : e.kind = .eof := by rw [← singleton_inj.mp hend]
  have hkept : ((all b).map (move (Span.behind (Position.start.after a.toList)))).filter
      (fun t => !t.kind.isTrivia) =
        (significant b).map (move (Span.behind (Position.start.after a.toList))) := by
    rw [filter_map]
    rfl
  -- the tokens of the text without the mark of its end
  have hfilter : (us ++ [u]).filter (fun t => !t.kind.isTrivia) =
      us.filter (fun t => !t.kind.isTrivia) ++ [u] := by
    simp [hu, TokenKind.isTrivia]
  obtain ⟨t, ts, hts⟩ := exists_cons_of_ne_nil (append_ne_nil_of_right_ne_nil
    (us.filter fun t => !t.kind.isTrivia) (cons_ne_nil u []))
  refine ⟨t, ts, e, ?_, fun v hv => ?_, he, ?_, ?_⟩
  · rw [← hts, ← hu]
    exact lastIs_concat _ u
  · rw [← hts, ← hfilter] at hv
    exact hne v (mem_of_mem_filter hv)
  · rw [← cons_append, ← hts, significant, hall]
    simp [hu, he, TokenKind.isTrivia]
  · rw [← cons_append, ← hts, significant, all_append hall hu, ← hkept]
    simp [hu, TokenKind.isTrivia]

theorem exists_significant_eq (text : String) :
    ∃ t ts, significant text = t :: ts ∧ LastIs .eof (t :: ts) := by
  obtain ⟨ts, hts, -⟩ := exists_allFrom_eq .start text.toList
  have hsignificant : significant text = ts.filter (fun t => !t.kind.isTrivia) ++
      [⟨.eof, "", Span.ofText (Position.start.after text.toList) []⟩] := by
    rw [significant, all, hts, filter_append]
    rfl
  obtain ⟨u, us, hus⟩ := exists_cons_of_ne_nil (append_ne_nil_of_right_ne_nil
    (ts.filter fun t => !t.kind.isTrivia)
    (cons_ne_nil ⟨.eof, "", Span.ofText (Position.start.after text.toList) []⟩ []))
  exact ⟨u, us, hsignificant.trans hus, hus ▸ lastIs_concat _ _⟩

end Token

end Quantity
