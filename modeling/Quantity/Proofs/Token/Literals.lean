import Quantity.Proofs.Number.Written
import Quantity.Proofs.Token.Tiling
import Mathlib.Data.List.TakeWhile

/-!
# Numerals and texts in quotes

The lexemes that have a form of their own. A numeral is what `NumeralText` says, and each one is cut
off as a whole where what follows cannot go on with it (`Token.numerals_exact`). Every text can be
put in quotes, once its quotes, backslashes, line feeds and tabs are escaped (`Token.all_quote`).
-/

namespace Quantity

open List

open Number (IsDigits IsFraction)

/-! ### The form of numerals -/

/-- Nothing, or digits after a mark in either case and an optional sign. -/
inductive IsPower : List Char → Prop
  | nothing : IsPower []
  | mark {c : Char} {sign ds : List Char} (hc : c = 'e' ∨ c = 'E')
      (hsign : sign = [] ∨ sign = ['+'] ∨ sign = ['-']) (h : IsDigits ds) :
      IsPower (c :: (sign ++ ds))

/-- **A numeral**: digits, a fraction and an exponent, of which the exponent may be absent, and
either the digits or the fraction. -/
structure NumeralText where
  whole : List Char
  fraction : List Char
  exponent : List Char
  hwhole : ∀ c ∈ whole, c.isDigit = true
  hfraction : IsFraction fraction
  hexponent : IsPower exponent
  nonempty : whole ≠ [] ∨ fraction ≠ []

namespace NumeralText

def chars (n : NumeralText) : List Char := n.whole ++ (n.fraction ++ n.exponent)

/-- **The numeral does not go on** with what follows: no digit, no exponent mark if it has no
exponent, and no point if it has neither a fraction nor an exponent. -/
structure EndsBefore (n : NumeralText) (rest : List Char) : Prop where
  digit : ∀ c ∈ rest.head?, c.isDigit = false
  mark : n.exponent = [] → ∀ c ∈ rest.head?, c ≠ 'e' ∧ c ≠ 'E'
  point : n.fraction = [] → n.exponent = [] → ∀ c ∈ rest.head?, c ≠ '.'

end NumeralText

namespace Lexeme

variable {c : Char} {cs before ds es rest : List Char}

theorem takeWhile_append_stop (hcs : ∀ c ∈ cs, p c = true) (hrest : ∀ c ∈ rest.head?, p c = false) :
    (cs ++ rest).takeWhile p = cs ∧ (cs ++ rest).dropWhile p = rest := by
  have hstop : rest.takeWhile p = [] := by
    cases rest with
    | nil => rfl
    | cons c rest => simp [hrest c rfl]
  rw [takeWhile_append_of_pos hcs, dropWhile_append_of_pos hcs, hstop, append_nil,
    dropWhile_of_takeWhile_nil hstop]
  exact ⟨rfl, rfl⟩

/-! ### Where numerals begin -/

theorem mem_digits (h : c.isDigit = true) : c ∈ "0123456789".toList := by
  have hcode : c.toNat ∈ List.range' 48 10 := by
    simp only [Char.isDigit, Bool.and_eq_true, decide_eq_true_eq] at h
    rw [mem_range'_1]
    exact ⟨h.1, Nat.lt_succ_of_le h.2⟩
  have hall : ∀ n ∈ List.range' 48 10, Char.ofNat n ∈ "0123456789".toList := by decide
  have hc := hall _ hcode
  rwa [Char.ofNat_toNat] at hc

theorem scan_digit (h : c.isDigit = true) (cs : List Char) : scan c cs = number c cs := by
  have hall : "0123456789".toList.all (fun d => !Text.isBlank d && d ≠ '/' && d ≠ '"' && d ≠ '@' &&
      !startsName d) = true := by decide
  have hc := all_eq_true.mp hall c (mem_digits h)
  simp only [Bool.and_eq_true, Bool.not_eq_true', decide_eq_true_eq] at hc
  simp [scan, hc, h]

theorem scan_point (h : startsWithDigit cs = true) : scan '.' cs = fractionPart '.' [] cs := by
  have hblank : Text.isBlank '.' = false := by decide
  have hname : startsName '.' = false := by decide
  rw [scan, if_neg (by simp [hblank]), if_neg (by decide), if_neg (by decide), if_neg (by decide),
    if_neg (by simp [hname]), if_pos (by simp [h])]
  rfl

/-! ### Numerals are cut off as a whole -/

theorem splitSign_append (hsign : sign = [] ∨ sign = ['+'] ∨ sign = ['-']) (hds : IsDigits ds)
    (rest : List Char) : splitSign (sign ++ (ds ++ rest)) = (sign, ds ++ rest) := by
  rcases hsign with rfl | rfl | rfl
  · obtain ⟨d, ds, rfl⟩ := exists_cons_of_ne_nil hds.1
    have hd := hds.2 d mem_cons_self
    show splitSign (d :: (ds ++ rest)) = ([], d :: (ds ++ rest))
    rw [splitSign]
    · rintro _ ⟨rfl, -⟩
      cases hd
    · rintro _ ⟨rfl, -⟩
      cases hd
  · rfl
  · rfl

theorem ifRun_digits (hds : IsDigits ds) (hrest : ∀ c ∈ rest.head?, c.isDigit = false)
    (none : List Char → Lexeme) (some : List Char → List Char → Lexeme) :
    ifRun Char.isDigit none some (ds ++ rest) = some ds rest := by
  obtain ⟨htake, hdrop⟩ := takeWhile_append_stop hds.2 hrest
  obtain ⟨d, ds, rfl⟩ := exists_cons_of_ne_nil hds.1
  rw [ifRun, htake, hdrop]

theorem exponentPart_power (hes : IsPower es) (hdigit : ∀ c ∈ rest.head?, c.isDigit = false)
    (hmark : es = [] → ∀ c ∈ rest.head?, c ≠ 'e' ∧ c ≠ 'E') (c : Char) (before : List Char) :
    exponentPart c before (es ++ rest) = plain .number c (before ++ es) rest := by
  cases hes with
  | nothing =>
    rw [append_nil, nil_append]
    cases rest with
    | nil => rfl
    | cons d rest => rw [exponentPart_cons, if_neg (by simpa using hmark rfl d rfl)]
  | mark hc hsign hds =>
    rw [cons_append, List.append_assoc, exponentPart_cons, if_pos (by simpa using hc),
      splitSign_append hsign hds, exponentDigits, ifRun_digits hds hdigit]
    simp

/-- What an exponent begins with, or what is behind it if there is none. -/
theorem head_power (hes : IsPower es) {p : Char → Prop} (he : p 'e') (hE : p 'E')
    (hrest : es = [] → ∀ c ∈ rest.head?, p c) : ∀ c ∈ (es ++ rest).head?, p c := by
  cases hes with
  | nothing => exact hrest rfl
  | mark hc _ _ =>
    rintro _ ⟨⟩
    rcases hc with rfl | rfl
    · exact he
    · exact hE

/-- **A numeral is cut off as a whole** in front of what does not go on with it. -/
theorem scan_numeral {n : NumeralText} (h : n.EndsBefore rest) :
    ∃ d ds, n.chars = d :: ds ∧ scan d (ds ++ rest) = plain .number d ds rest := by
  obtain ⟨whole, fraction, exponent, hwhole, hfraction, hexponent, hne⟩ := n
  obtain ⟨hdigit, hmark, hpoint⟩ := h
  have hpower := exponentPart_power hexponent hdigit hmark
  have hend : ∀ c ∈ (exponent ++ rest).head?, c.isDigit = false :=
    head_power hexponent rfl rfl fun _ => hdigit
  -- a fraction ends where the exponent begins
  have hfractionPart {ds : List Char} (hds : IsDigits ds) (c : Char) (before : List Char) :
      fractionPart c before (ds ++ (exponent ++ rest)) =
        plain .number c (before ++ (ds ++ exponent)) rest := by
    exact (ifRun_digits hds hend _ _).trans (by rw [hpower, List.append_assoc])
  cases whole with
  | nil =>
    cases hfraction with
    | nothing => exact absurd rfl (hne.resolve_left fun hne => hne rfl)
    | @point ds hds =>
      refine ⟨'.', ds ++ exponent, rfl, ?_⟩
      rw [List.append_assoc, scan_point, hfractionPart hds]
      · rfl
      · obtain ⟨d, ds, rfl⟩ := exists_cons_of_ne_nil hds.1
        exact hds.2 d mem_cons_self
  | cons d ws =>
    obtain ⟨hd, hws⟩ := forall_mem_cons.mp hwhole
    have hdot : d ≠ '.' := by
      rintro rfl
      cases hd
    refine ⟨d, ws ++ (fraction ++ exponent), rfl, ?_⟩
    rw [scan_digit hd, number_eq, if_neg hdot, List.append_assoc, List.append_assoc]
    cases hfraction with
    | nothing =>
      obtain ⟨htake, hdrop⟩ := takeWhile_append_stop hws hend
      rw [nil_append, htake, hdrop, afterDigits, hpower]
      · rfl
      · rintro _ hcs
        exact head_power hexponent (p := (· ≠ '.')) (by decide) (by decide) (hpoint rfl) '.'
          (by rw [hcs]; rfl) rfl
    | @point ds hds =>
      have hstop : ∀ c ∈ ('.' :: (ds ++ (exponent ++ rest))).head?, c.isDigit = false := by
        rintro _ ⟨⟩
        rfl
      obtain ⟨htake, hdrop⟩ := takeWhile_append_stop hws hstop
      rw [cons_append, htake, hdrop, afterDigits, hfractionPart hds]
      simp

/-! ### Nothing else is a numeral -/

theorem isDigits_takeWhile (h : cs.takeWhile Char.isDigit = d :: ds) : IsDigits (d :: ds) := by
  rw [← h]
  exact ⟨by simp [h], fun _ => mem_takeWhile_imp⟩

theorem splitSign_fst (cs : List Char) :
    (splitSign cs).1 = [] ∨ (splitSign cs).1 = ['+'] ∨ (splitSign cs).1 = ['-'] := by
  fun_cases splitSign cs <;> simp

theorem value_exponentPart (h : (exponentPart c before cs).kind = .number) :
    ∃ es, IsPower es ∧ (exponentPart c before cs).value = c :: (before ++ es) := by
  have hnone : ∃ es, IsPower es ∧ c :: before = c :: (before ++ es) := ⟨[], .nothing, by simp⟩
  cases cs with
  | nil => exact hnone
  | cons mark cs =>
    rw [exponentPart_cons] at h ⊢
    split_ifs at h ⊢ with hmark
    · unfold exponentDigits ifRun at h ⊢
      cases hdigits : (splitSign cs).2.takeWhile Char.isDigit with
      | nil =>
        rw [hdigits] at h
        cases h
      | cons d ds =>
        refine ⟨mark :: ((splitSign cs).1 ++ (d :: ds)), ?_, ?_⟩
        · exact .mark (by simpa using hmark) (splitSign_fst cs) (isDigits_takeWhile hdigits)
        · simp [plain]
    · exact hnone

theorem value_fractionPart (h : (fractionPart c before cs).kind = .number) :
    ∃ ds es, IsDigits ds ∧ IsPower es ∧
      (fractionPart c before cs).value = c :: (before ++ (ds ++ es)) := by
  unfold fractionPart at h ⊢
  cases hdigits : cs.takeWhile Char.isDigit with
  | nil =>
    rw [hdigits] at h
    cases h
  | cons d ds =>
    rw [hdigits] at h
    obtain ⟨es, hes, hvalue⟩ := value_exponentPart h
    exact ⟨d :: ds, es, isDigits_takeWhile hdigits, hes, by rw [hvalue, List.append_assoc]⟩

theorem exists_numeral_of_number (hc : c.isDigit = true ∨ c = '.')
    (h : (number c cs).kind = .number) : ∃ n : NumeralText, (number c cs).value = n.chars := by
  rw [number_eq] at h ⊢
  split_ifs at h ⊢ with hdot
  · obtain ⟨ds, es, hds, hes, hvalue⟩ := value_fractionPart h
    refine ⟨⟨[], '.' :: ds, es, nofun, .point hds, hes, .inr (cons_ne_nil _ _)⟩, ?_⟩
    rw [hvalue, hdot]
    rfl
  · have hwhole : ∀ d ∈ c :: cs.takeWhile Char.isDigit, d.isDigit = true :=
      forall_mem_cons.mpr ⟨hc.resolve_right hdot, fun _ => mem_takeWhile_imp⟩
    have hne : c :: cs.takeWhile Char.isDigit ≠ [] := cons_ne_nil _ _
    unfold afterDigits at h ⊢
    split at h
    · obtain ⟨ds, es, hds, hes, hvalue⟩ := value_fractionPart h
      refine ⟨⟨_, '.' :: ds, es, hwhole, .point hds, hes, .inl hne⟩, ?_⟩
      rw [hvalue]
      simp [NumeralText.chars]
    · obtain ⟨es, hes, hvalue⟩ := value_exponentPart h
      exact ⟨⟨_, [], es, hwhole, .nothing, hes, .inl hne⟩, hvalue⟩

/-- **A lexeme of this kind is a numeral.** -/
theorem exists_numeral_of_scan (h : (scan c cs).kind = .number) :
    ∃ n : NumeralText, (scan c cs).value = n.chars := by
  unfold scan at h ⊢
  split_ifs at h ⊢ with _ _ _ _ _ hnumber
  · cases h
  · unfold slash at h
    split at h
    · cases h
    · unfold blockComment at h
      split at h <;> cases h
    · cases h
  · unfold quoted at h
    dsimp only at h
    split_ifs at h
    cases h
  · unfold verbatimName at h
    split at h <;> cases h
  · cases h
  · refine exists_numeral_of_number ?_ h
    simp only [Bool.or_eq_true, Bool.and_eq_true, decide_eq_true_eq] at hnumber
    exact hnumber.imp_right And.left
  · unfold symbol TokenKind.ofSymbol? at h
    split at h <;> cases h

/-! ### Texts in quotes -/

/-- The character as it is written in quotes. -/
def escape : Char → List Char
  | '\\' => ['\\', '\\']
  | '"' => ['\\', '"']
  | '\n' => ['\\', 'n']
  | '\t' => ['\\', 't']
  | c => [c]

def quote (cs : List Char) : List Char := '"' :: (cs.flatMap escape ++ ['"'])

theorem stringBody_plain (hquote : c ≠ '"') (hslash : c ≠ '\\') (hline : c ≠ '\n') (cs : List Char) :
    stringBody (c :: cs) = (stringBody cs).push (some c) [c] := by
  rw [stringBody]
  · exact hquote
  · exact hline
  · exact hslash

theorem stringBody_escape (c : Char) (cs : List Char) :
    stringBody (escape c ++ cs) = (stringBody cs).push (some c) (escape c) := by
  fun_cases escape c with
  | case1 | case2 | case3 | case4 => rfl
  | case5 c hslash hquote hline _ => exact stringBody_plain hquote hslash hline cs

theorem stringBody_flatMap
    (hf : ∀ c ∈ cs, ∀ rest, stringBody (f c ++ rest) = (stringBody rest).push (some c) (f c))
    (rest : List Char) :
    stringBody (cs.flatMap f ++ '"' :: rest) = ⟨cs, true, cs.flatMap f ++ ['"'], rest⟩ := by
  induction cs with
  | nil => rfl
  | cons c cs ih =>
    obtain ⟨hc, hcs⟩ := forall_mem_cons.mp hf
    rw [flatMap_cons, List.append_assoc, hc, ih hcs, StringBody.push]
    simp

/-! ### Lexemes that are cut off -/

/-- **A lexeme is cut off** in front of what follows. -/
def CutOff (kind : TokenKind) (value cs rest : List Char) : Prop :=
  ∃ c tail, cs = c :: tail ∧ scan c (tail ++ rest) = ⟨kind, value, tail, rest⟩

theorem cutOff_string
    (hf : ∀ c ∈ cs, ∀ rest, stringBody (f c ++ rest) = (stringBody rest).push (some c) (f c))
    (rest : List Char) : CutOff .string cs ('"' :: (cs.flatMap f ++ ['"'])) rest := by
  refine ⟨'"', _, rfl, ?_⟩
  have hblank : Text.isBlank '"' = false := by decide
  rw [List.append_assoc, scan, quoted,
    singleton_append, stringBody_flatMap hf]
  rfl

theorem cutOff_numeral {n : NumeralText} (h : n.EndsBefore rest) :
    CutOff .number n.chars n.chars rest := by
  obtain ⟨d, ds, hchars, hscan⟩ := scan_numeral h
  exact ⟨d, ds, hchars, hchars ▸ hscan⟩

end Lexeme

namespace Token

open Lexeme

theorem allFrom_cutOff {kind : TokenKind} {value cs rest : List Char}
    (h : CutOff kind value cs rest) (p : Position) : allFrom p (cs ++ rest) =
      ⟨kind, String.ofList value, Span.ofText p cs⟩ :: allFrom (p.after cs) rest := by
  obtain ⟨c, tail, rfl, hscan⟩ := h
  rw [cons_append, allFrom_cons, hscan]
  rfl

theorem all_cutOff {kind : TokenKind} {value cs : List Char} {rest : String}
    (h : CutOff kind value cs rest.toList) :
    ∃ t : Token, t.kind = kind ∧ t.value = String.ofList value ∧ t.Stands [] cs ∧
      all (String.ofList cs ++ rest) =
        t :: (all rest).map (move (Span.behind (Position.start.after cs))) := by
  have hall : all (String.ofList cs ++ rest) =
      ⟨kind, String.ofList value, Span.ofText .start cs⟩ ::
        (all rest).map (move (Span.behind (Position.start.after cs))) := by
    rw [all, String.toList_append, String.toList_ofList, allFrom_cutOff h, all,
      ← allFrom_behind _ Position.counts_start,
      Position.behind_start (Position.counts_start.after cs)]
  refine ⟨_, rfl, rfl, ?_, hall⟩
  obtain ⟨c, tail, rfl, hscan⟩ := h
  have hstands := stands_ofLexeme [] c (tail ++ rest.toList)
  rw [hscan] at hstands
  exact hstands

theorem exists_numeral_of_mem (ht : t ∈ all text) (hkind : t.kind = .number) :
    ∃ n : NumeralText, t.value.toList = n.chars := by
  obtain ⟨q, c, cs, rfl⟩ := exists_scan_of_mem ht (by simp [hkind])
  obtain ⟨n, hn⟩ := exists_numeral_of_scan hkind
  exact ⟨n, String.toList_ofList.trans hn⟩

/-- **Numerals are recognized exactly.** Every token of this kind has the form of one; and each text
of this form, in front of anything that does not go on with it, is the first token, and the text
behind it is cut as if it were alone. -/
theorem numerals_exact :
    (∀ text, ∀ t ∈ all text, t.kind = .number → ∃ n : NumeralText, t.value.toList = n.chars) ∧
      ∀ (n : NumeralText) (rest : String), n.EndsBefore rest.toList →
        ∃ t : Token, t.kind = .number ∧ t.value = String.ofList n.chars ∧ t.Stands [] n.chars ∧
          all (String.ofList n.chars ++ rest) =
            t :: (all rest).map (move (Span.behind (Position.start.after n.chars))) :=
  ⟨fun _ _ => exists_numeral_of_mem, fun _ _ h => all_cutOff (cutOff_numeral h)⟩

def thousandths : NumeralText where
  whole := ['1']
  fraction := ['.', '5']
  exponent := ['E', '-', '3']
  hwhole := by simp
  hfraction := .point ⟨cons_ne_nil _ _, by simp⟩
  hexponent := @IsPower.mark 'E' ['-'] ['3'] (.inr rfl) (.inr (.inr rfl)) ⟨cons_ne_nil _ _, by simp⟩
  nonempty := .inl (cons_ne_nil _ _)

/-- It does not go on with a point or an exponent mark. -/
theorem numerals_exact_thousandths :
    (⟨.number, "1.5E-3", ⟨0, 6, 1, 1, 1, 6⟩⟩ ∈ all "1.5E-3.e" ∧
        ∃ n : NumeralText, "1.5E-3".toList = n.chars) ∧
      thousandths.EndsBefore ".e".toList ∧
        ∃ t : Token, t.kind = .number ∧ t.value = "1.5E-3" ∧ t.Stands [] thousandths.chars ∧
          all "1.5E-3.e" =
            t :: (all ".e").map (move (Span.behind (Position.start.after thousandths.chars))) := by
  have hmem : ⟨.number, "1.5E-3", ⟨0, 6, 1, 1, 1, 6⟩⟩ ∈ all "1.5E-3.e" := by decide +kernel
  have hends : thousandths.EndsBefore ".e".toList := ⟨by simp, nofun, nofun⟩
  exact ⟨⟨hmem, numerals_exact.1 _ _ hmem rfl⟩, hends, numerals_exact.2 _ _ hends⟩

/-- **Every text can be put in quotes**, whatever it is and whatever follows: it is read back as the
first token, which ends with the closing quote, and the text behind it is cut as if it were alone. -/
theorem all_quote (s rest : String) :
    ∃ t : Token, t.kind = .string ∧ t.value = s ∧ t.Stands [] (quote s.toList) ∧
      all (String.ofList (quote s.toList) ++ rest) =
        t :: (all rest).map (move (Span.behind (Position.start.after (quote s.toList)))) := by
  obtain ⟨t, hkind, hvalue, h⟩ := 
    all_cutOff (cutOff_string (fun c _ => stringBody_escape c) rest.toList)
  exact ⟨t, hkind, hvalue.trans String.ofList_toList, h⟩

end Token

end Quantity
