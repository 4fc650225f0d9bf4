import Quantity.Proofs.Number.Written
import Quantity.Text.Json
import Mathlib.Data.List.Forall2

/-!
# JSON texts that are read back

A value is read back from its text, whatever blanks are set between its parts (`read?_write`). Each
reader takes what the writer of its part has written and leaves the rest. Only numbers do not say
themselves where they end, so the rest must not go on with one (`Ends`).
-/

namespace Quantity.Text.Json

open Quantity.Number List

/-! ### Numbers -/

/-- The text does not begin with a digit. -/
def NoDigit (cs : List Char) : Prop := ∀ c ∈ cs.head?, c.isDigit = false

/-- The text does not continue a number. -/
def Ends (cs : List Char) : Prop :=
  ∀ c ∈ cs.head?, c.isDigit = false ∧ c ≠ '.' ∧ c ≠ 'e' ∧ c ≠ 'E'

theorem ends_nil : Ends [] := nofun

theorem ends_cons (h : c.isDigit = false ∧ c ≠ '.' ∧ c ≠ 'e' ∧ c ≠ 'E') (cs : List Char) :
    Ends (c :: cs) := by
  intro c' hc'
  cases hc'
  exact h

theorem Ends.noDigit (h : Ends cs) : NoDigit cs := fun c hc => (h c hc).1

theorem readDigits?_append (hds : IsDigits ds) (hrest : NoDigit rest) :
    readDigits? (ds ++ rest) = some (ds, rest) := by
  have htake : (ds ++ rest).takeWhile Char.isDigit = ds := by
    rw [takeWhile_append_of_pos hds.2]
    cases rest with
    | nil => exact append_nil ds
    | cons c cs =>
      rw [takeWhile_cons_of_neg (by simp [hrest c rfl]), append_nil]
  have hdrop : (ds ++ rest).dropWhile Char.isDigit = rest := by
    rw [dropWhile_append_of_pos hds.2]
    cases rest with
    | nil => rfl
    | cons c cs => rw [dropWhile_cons_of_neg (by simp [hrest c rfl])]
  unfold readDigits?
  dsimp only
  rw [htake, hdrop, isEmpty_eq_false_iff.mpr hds.1]
  rfl

theorem readWhole?_append (hds : IsWhole ds) (hrest : NoDigit rest) :
    readWhole? (ds ++ rest) = some (ds, rest) := by
  have hzero : (decide (ds.length > 1) && ds.head? == some '0') = false := by
    by_cases hhead : ds.head? = some '0'
    · rw [hds.2 hhead]
      rfl
    · simp [hhead]
  unfold readWhole?
  rw [readDigits?_append hds.1 hrest]
  dsimp only [Option.bind_eq_bind, Option.bind_some]
  rw [hzero]
  rfl

theorem readFraction?_append (h : IsFraction fraction) (hrest : NoDigit rest)
    (hpoint : rest.head? ≠ some '.') :
    readFraction? (fraction ++ rest) = some (fraction, rest) := by
  cases h with
  | nothing =>
    unfold readFraction?
    split
    · rename_i heq
      exact absurd (congrArg head? heq) hpoint
    · rfl
  | @point ds hds =>
    show (readDigits? (ds ++ rest)).map _ = _
    rw [readDigits?_append hds hrest]
    rfl

theorem readExponent?_append (h : IsExponent exponent) (hrest : Ends rest) :
    readExponent? (exponent ++ rest) = some (exponent, rest) := by
  cases h with
  | nothing =>
    cases rest with
    | nil => rfl
    | cons c cs =>
      obtain ⟨-, -, he, hE⟩ := hrest c rfl
      show (if c = 'e' || c = 'E' then _ else _) = _
      simp [he, hE]
  | @mark sign ds hsign hds =>
    have hdigits := readDigits?_append hds hrest.noDigit
    rcases hsign with rfl | rfl | rfl
    · obtain ⟨d, ds, rfl⟩ := exists_cons_of_ne_nil hds.1
      have hd : d.isDigit = true := hds.2 d (mem_cons_self ..)
      simp only [cons_append, nil_append] at hdigits ⊢
      unfold readExponent?
      dsimp only
      rw [if_pos (by decide)]
      -- a digit is no sign
      split
      · rename_i heq
        cases heq
        cases hd
      · rename_i heq
        cases heq
        cases hd
      · rw [hdigits]
        rfl
    · show (readDigits? (ds ++ rest)).map _ = _
      rw [hdigits]
      rfl
    · show (readDigits? (ds ++ rest)).map _ = _
      rw [hdigits]
      rfl

theorem noDigit_exponent (h : IsExponent exponent) (hrest : Ends rest) :
    NoDigit (exponent ++ rest) ∧ (exponent ++ rest).head? ≠ some '.' := by
  cases h with
  | nothing => exact ⟨hrest.noDigit, fun hpoint => (hrest '.' hpoint).2.1 rfl⟩
  | mark _ _ =>
    refine ⟨fun c hc => ?_, by simp⟩
    cases hc
    rfl

theorem noDigit_fraction (h : IsFraction fraction) (hrest : NoDigit rest) :
    NoDigit (fraction ++ rest) := by
  cases h with
  | nothing => exact hrest
  | point _ =>
    intro c hc
    cases hc
    rfl

/-- **A number is read back from its text**, if the text ends there. -/
theorem readNumber?_append (h : IsNumber cs) (hrest : Ends rest) :
    readNumber? (cs ++ rest) = some (String.ofList cs, rest) := by
  cases h with
  | @parts sign whole fraction exponent hsign hwhole hfraction hexponent =>
    obtain ⟨hdigit, hpoint⟩ := noDigit_exponent hexponent hrest
    simp only [List.append_assoc]
    unfold readNumber?
    split
    rename_i sign' tail heq
    have hsplit : (sign', tail) = (sign, whole ++ (fraction ++ (exponent ++ rest))) := by
      rw [← heq]
      rcases hsign with rfl | rfl
      · obtain ⟨d, ds, rfl⟩ := exists_cons_of_ne_nil hwhole.1.1
        have hd : d.isDigit = true := hwhole.1.2 d (mem_cons_self ..)
        split
        · rename_i heq
          cases heq
          cases hd
        · rfl
      · rfl
    obtain ⟨rfl, rfl⟩ := Prod.mk.inj hsplit
    rw [readWhole?_append hwhole (noDigit_fraction hfraction hdigit)]
    dsimp only [Option.bind_eq_bind, Option.bind_some]
    rw [readFraction?_append hfraction hdigit hpoint]
    dsimp only [Option.bind_some]
    rw [readExponent?_append hexponent hrest]
    dsimp only [Option.bind_some]
    rw [List.append_assoc, List.append_assoc]

/-! ### Strings -/

theorem readHex4?_hex4 : ∀ n < 32, readHex4? (hex4 n) = some (n, []) := by
  decide

theorem readHex4?_append (h : readHex4? cs = some (n, [])) :
    readHex4? (cs ++ rest) = some (n, rest) := by
  unfold readHex4? at h
  split at h
  · rename_i a b c d more
    simp only [Option.bind_eq_bind, Option.bind_eq_some_iff, Option.some.injEq, Prod.mk.injEq] at h
    obtain ⟨a', ha, b', hb, c', hc, d', hd, hn, rfl⟩ := h
    simp [readHex4?, ha, hb, hc, hd, hn]
  · cases h

theorem readEscape?_control (h : c.toNat < 0x20) (rest : List Char) :
    readEscape? ('u' :: (hex4 c.toNat ++ rest)) = some (some c, rest) := by
  show readCode? (hex4 c.toNat ++ rest) = _
  unfold readCode?
  rw [readHex4?_append (readHex4?_hex4 _ h)]
  dsimp only [Option.bind_eq_bind, Option.bind_some]
  have hupper : (decide (0xD800 ≤ c.toNat) && decide (c.toNat < 0xDC00)) = false := by
    simp
    omega
  have hlower : (decide (0xDC00 ≤ c.toNat) && decide (c.toNat < 0xE000)) = false := by
    simp
    omega
  rw [hupper, hlower, Char.ofNat_toNat]
  rfl

theorem readStringBody?_escape (h : readEscape? cs = some (some c, rest)) (fuel : Nat) :
    readStringBody? (fuel + 1) ('\\' :: cs) =
      (readStringBody? fuel rest).map fun (s, cs) => (s.map (c :: ·), cs) := by
  show (readEscape? cs).bind _ = _
  rw [h]
  cases hbody : readStringBody? fuel rest with
  | none => simp [hbody]
  | some x => simp [hbody]

theorem readStringBody?_plain (hquote : c ≠ '"') (hescape : c ≠ '\\') (hcontrol : ¬ c.toNat < 0x20)
    (fuel : Nat) (rest : List Char) :
    readStringBody? (fuel + 1) (c :: rest) =
      (readStringBody? fuel rest).map fun (s, cs) => (s.map (c :: ·), cs) := by
  rw [readStringBody?.eq_5 _ _ _ hquote hescape, if_neg hcontrol]
  cases hbody : readStringBody? fuel rest with
  | none => rfl
  | some x => rfl

/-- **Each character is read back from what is written for it.** -/
theorem readStringBody?_writeChar (fuel : Nat) (c : Char) (rest : List Char) :
    readStringBody? (fuel + 1) (writeChar c ++ rest) =
      (readStringBody? fuel rest).map fun (s, cs) => (s.map (c :: ·), cs) := by
  unfold writeChar
  split
  · exact readStringBody?_escape rfl fuel
  · exact readStringBody?_escape rfl fuel
  · exact readStringBody?_escape rfl fuel
  · exact readStringBody?_escape rfl fuel
  · exact readStringBody?_escape rfl fuel
  · exact readStringBody?_escape rfl fuel
  · exact readStringBody?_escape rfl fuel
  · rename_i hquote hescape _ _ _ _ _
    split_ifs with hcontrol
    · exact readStringBody?_escape (readEscape?_control hcontrol rest) fuel
    · exact readStringBody?_plain hquote hescape hcontrol fuel rest

theorem readStringBody?_flatMap (cs rest : List Char) (hfuel : cs.length < fuel) :
    readStringBody? fuel (cs.flatMap writeChar ++ '"' :: rest) = some (some cs, rest) := by
  induction cs generalizing fuel with
  | nil =>
    cases fuel with
    | zero => cases hfuel
    | succ fuel => rfl
  | cons c cs ih =>
    cases fuel with
    | zero => cases hfuel
    | succ fuel =>
      rw [flatMap_cons, List.append_assoc, readStringBody?_writeChar,
        ih (Nat.lt_of_succ_lt_succ hfuel)]
      rfl

theorem writeChar_ne_nil (c : Char) : writeChar c ≠ [] := by
  unfold writeChar
  split
  case h_8 => split_ifs <;> exact cons_ne_nil _ _
  all_goals exact cons_ne_nil _ _

theorem length_le_flatMap_writeChar (cs : List Char) :
    cs.length ≤ (cs.flatMap writeChar).length := by
  induction cs with
  | nil => exact Nat.le_refl 0
  | cons c cs ih =>
    have hpositive := length_pos_iff.mpr (writeChar_ne_nil c)
    rw [flatMap_cons, length_append, length_cons]
    omega

/-- **A text is read back**, with quotes, control characters and all others. -/
theorem readString?_writeString (s : String) (rest : List Char)
    (hfuel : (writeString s).length ≤ fuel) :
    readString? fuel (writeString s ++ rest) = some (some s, rest) := by
  have hlength := length_le_flatMap_writeChar s.toList
  simp only [writeString, length_cons, length_append] at hfuel
  show (readStringBody? fuel (s.toList.flatMap writeChar ++ ['"'] ++ rest)).map _ = _
  rw [List.append_assoc, singleton_append, readStringBody?_flatMap _ _ (by omega)]
  simp

/-! ### Containers -/

/-- There is nothing but blanks between the parts. -/
structure Spacing.IsBlank (sp : Spacing) : Prop where
  lineBreak : ∀ depth, ∀ c ∈ sp.lineBreak depth, isSpace c = true
  afterColon : ∀ c ∈ sp.afterColon, isSpace c = true

theorem isBlank_compact : Spacing.compact.IsBlank := ⟨nofun, nofun⟩

theorem isBlank_indented : Spacing.indented.IsBlank where
  lineBreak depth c hc := by
    rcases mem_cons.mp hc with rfl | hc
    · rfl
    · rw [(mem_replicate.mp hc).2]
      rfl
  afterColon c hc := by
    rw [mem_singleton.mp hc]
    rfl

theorem skipSpace_append (hblanks : ∀ c ∈ blanks, isSpace c = true) (hc : isSpace c = false)
    (cs : List Char) : skipSpace (blanks ++ c :: cs) = c :: cs := by
  rw [skipSpace, dropWhile_append_of_pos hblanks, dropWhile_cons_of_neg (by simp [hc])]

theorem ends_append (hblanks : ∀ c ∈ blanks, isSpace c = true) (hrest : Ends rest) :
    Ends (blanks ++ rest) := by
  cases blanks with
  | nil => exact hrest
  | cons c cs =>
    refine ends_cons ?_ _
    have hc := hblanks c (mem_cons_self ..)
    simp only [isSpace, Bool.or_eq_true, decide_eq_true_eq] at hc
    rcases hc with ((rfl | rfl) | rfl) | rfl <;> decide

section Items

variable {α : Type} {item : List Char → Option (α × List Char)} {close : Char}

/-- The reader takes the text of a value and leaves the rest, which does not continue a number. -/
def Reads (item : List Char → Option (α × List Char)) (text : List Char) (a : α) : Prop :=
  ∀ rest, Ends rest → item (text ++ rest) = some (a, rest)

/-- The text begins with neither a blank nor a closing bracket. -/
def Begins (close : Char) (text : List Char) : Prop :=
  ∃ c cs, text = c :: cs ∧ isSpace c = false ∧ c ≠ close

theorem skipSpace_begins (h : Begins close text) (hblanks : ∀ c ∈ blanks, isSpace c = true)
    (rest : List Char) : skipSpace (blanks ++ (text ++ rest)) = text ++ rest := by
  obtain ⟨c, cs, rfl, hc, -⟩ := h
  exact skipSpace_append hblanks hc _

/-- An item and what follows it: more items after commas, and the closing bracket. -/
theorem readItems?_append (hclose : close = ']' ∨ close = '\x7d') {before after : List Char}
    (hbefore : ∀ c ∈ before, isSpace c = true) (hafter : ∀ c ∈ after, isSpace c = true)
    {texts : List (List Char)} {values : List α}
    (h : List.Forall₂ (fun t a => Reads item t a ∧ Begins close t) texts values) {text : List Char}
    {a : α} (htext : Reads item text a ∧ Begins close text) (rest : List Char) {fuel : Nat}
    (hfuel : texts.length < fuel) :
    readItems? item close fuel
        (before ++ (text ++ (texts.flatMap (fun t => ',' :: before ++ t) ++
          (after ++ close :: rest)))) =
      some (a :: values, rest) := by
  have hcloses : isSpace close = false ∧ ',' ≠ close := by rcases hclose with rfl | rfl <;> decide
  induction h generalizing text a fuel with
  | nil =>
    have hends : Ends (after ++ close :: rest) := by
      refine ends_append hafter (ends_cons ?_ _)
      rcases hclose with rfl | rfl <;> decide
    cases fuel with
    | zero => cases hfuel
    | succ fuel =>
      rw [readItems?, skipSpace_begins htext.2 hbefore, flatMap_nil, nil_append,
        htext.1 _ hends]
      dsimp only [Option.bind_eq_bind, Option.bind_some]
      rw [skipSpace_append hafter hcloses.1]
      dsimp only
      rw [if_pos rfl]
  | @cons t b texts values hhead _ ih =>
    cases fuel with
    | zero => cases hfuel
    | succ fuel =>
      have hends (cs : List Char) : Ends (',' :: cs) := ends_cons (by decide) cs
      rw [readItems?, skipSpace_begins htext.2 hbefore, flatMap_cons, cons_append,
        cons_append, cons_append, htext.1 _ (hends _)]
      dsimp only [Option.bind_eq_bind, Option.bind_some]
      have hcomma (cs : List Char) : skipSpace (',' :: cs) = ',' :: cs := rfl
      rw [hcomma]
      dsimp only
      rw [if_neg hcloses.2, List.append_assoc, List.append_assoc,
        ih hhead (Nat.lt_of_succ_lt_succ hfuel)]
      rfl

/-- **The items of a container are read back.** -/
theorem readContainer?_writeItems {sp : Spacing} (hsp : sp.IsBlank)
    (hclose : close = ']' ∨ close = '\x7d') {texts : List (List Char)} {values : List α}
    (h : List.Forall₂ (fun t a => Reads item t a ∧ Begins close t) texts values) (depth : Nat)
    (open_ : Char) (rest : List Char) {fuel : Nat} (hfuel : texts.length ≤ fuel) :
    ∃ inner, writeItems sp depth open_ close texts = open_ :: inner ∧
      readContainer? item close fuel (inner ++ rest) = some (values, rest) := by
  have hspace : isSpace close = false := by rcases hclose with rfl | rfl <;> rfl
  cases h with
  | nil =>
    refine ⟨[close], rfl, ?_⟩
    rw [readContainer?, singleton_append, skipSpace,
      dropWhile_cons_of_neg (by simp [hspace])]
    dsimp only
    rw [if_pos rfl]
  | @cons text a texts values hhead htail =>
    refine ⟨sp.lineBreak (depth + 1) ++ (text ++ (texts.flatMap
      (fun t => ',' :: sp.lineBreak (depth + 1) ++ t) ++ (sp.lineBreak depth ++ [close]))),
      ?_, ?_⟩
    · simp [writeItems]
    · have hitems := readItems?_append hclose (hsp.lineBreak (depth + 1)) (hsp.lineBreak depth)
        htail hhead rest hfuel
      obtain ⟨c, cs, rfl, hc, hne⟩ := hhead.2
      simp only [List.append_assoc, cons_append, nil_append] at hitems ⊢
      rw [readContainer?, skipSpace_append (hsp.lineBreak (depth + 1)) hc]
      dsimp only
      rw [if_neg hne, hitems]

end Items

/-! #### Lengths -/

theorem length_flatMap_items (between : List Char) (texts : List (List Char)) :
    texts.length ≤ (texts.flatMap fun t => ',' :: between ++ t).length ∧
      ∀ t ∈ texts, t.length ≤ (texts.flatMap fun t => ',' :: between ++ t).length := by
  induction texts with
  | nil => exact ⟨Nat.le_refl 0, nofun⟩
  | cons text texts ih =>
    obtain ⟨hcount, hlength⟩ := ih
    simp only [flatMap_cons, length_append, length_cons]
    refine ⟨by omega, fun t ht => ?_⟩
    rcases mem_cons.mp ht with rfl | ht
    · omega
    · have := hlength t ht
      omega

/-- A container is longer than each of its items, and than there are items. -/
theorem lt_length_writeItems (sp : Spacing) (depth : Nat) (open_ close : Char)
    (texts : List (List Char)) :
    texts.length < (writeItems sp depth open_ close texts).length ∧
      ∀ t ∈ texts, t.length < (writeItems sp depth open_ close texts).length := by
  cases texts with
  | nil => exact ⟨by simp [writeItems], nofun⟩
  | cons text texts =>
    obtain ⟨hcount, hlength⟩ := length_flatMap_items (sp.lineBreak (depth + 1)) texts
    simp only [writeItems, length_append, length_cons] at hcount ⊢
    refine ⟨by omega, fun t ht => ?_⟩
    rcases mem_cons.mp ht with rfl | ht
    · omega
    · have := hlength t ht
      omega

theorem writeAll_eq_map (sp : Spacing) (depth : Nat) (items : List Json) :
    writeAll sp depth items = items.map (writeAt sp depth) := by
  induction items with
  | nil => rfl
  | cons j js ih => rw [writeAll, ih, map_cons]

def fieldText (sp : Spacing) (depth : Nat) (f : String × Json) : List Char :=
  writeString f.1 ++ ':' :: sp.afterColon ++ writeAt sp depth f.2

theorem writeFields_eq_map (sp : Spacing) (depth : Nat) (fields : List (String × Json)) :
    writeFields sp depth fields = fields.map (fieldText sp depth) := by
  induction fields with
  | nil => rfl
  | cons f fs ih => rw [writeFields, ih, map_cons, fieldText]

/-! ### Values -/

/-- The value has a text of its own: each number in it is written as a number, and no part is
without a meaning. -/
inductive Regular : Json → Prop
  | null : Regular .null
  | bool (b : Bool) : Regular (.bool b)
  | number {text : String} (h : IsNumber text.toList) : Regular (.number text)
  | string (s : String) : Regular (.string s)
  | array {items : List Json} (h : ∀ j ∈ items, Regular j) : Regular (.array items)
  | object {fields : List (String × Json)} (h : ∀ f ∈ fields, Regular f.2) :
    Regular (.object fields)

theorem exists_cons_of_isNumber (h : IsNumber cs) :
    ∃ c rest, cs = c :: rest ∧ (c = '-' ∨ c.isDigit = true) := by
  cases h with
  | @parts sign whole fraction exponent hsign hwhole _ _ =>
    rcases hsign with rfl | rfl
    · obtain ⟨d, ds, rfl⟩ := exists_cons_of_ne_nil hwhole.1.1
      exact ⟨d, _, rfl, .inr (hwhole.1.2 d (mem_cons_self ..))⟩
    · exact ⟨'-', _, rfl, .inl rfl⟩

theorem begins_isNumber (h : IsNumber cs) : Begins ']' cs := by
  obtain ⟨c, rest, rfl, hc⟩ := exists_cons_of_isNumber h
  refine ⟨c, rest, rfl, ?_, ?_⟩
  · by_contra hspace
    simp only [isSpace, Bool.not_eq_false, Bool.or_eq_true, decide_eq_true_eq] at hspace
    rcases hspace with ((rfl | rfl) | rfl) | rfl <;> revert hc <;> decide
  · rintro rfl
    revert hc
    decide

theorem begins_writeItems (sp : Spacing) (depth : Nat) {open_ : Char} (close : Char)
    (hspace : isSpace open_ = false) (hne : open_ ≠ ']') (texts : List (List Char)) :
    Begins ']' (writeItems sp depth open_ close texts) := by
  cases texts with
  | nil => exact ⟨open_, _, rfl, hspace, hne⟩
  | cons text texts => exact ⟨open_, _, rfl, hspace, hne⟩

theorem Regular.begins (h : j.Regular) (sp : Spacing) (depth : Nat) :
    Begins ']' (writeAt sp depth j) := by
  cases h with
  | null => exact ⟨'n', _, rfl, rfl, by decide⟩
  | bool b => cases b <;> exact ⟨_, _, rfl, rfl, by decide⟩
  | number htext => exact begins_isNumber htext
  | string s => exact ⟨'"', _, rfl, rfl, by decide⟩
  | array _ => exact begins_writeItems sp depth _ rfl (by decide) _
  | object _ => exact begins_writeItems sp depth _ rfl (by decide) _

theorem reads_number (h : IsNumber text.toList) (fuel : Nat) :
    Reads (readValue? (fuel + 1)) text.toList (.number text) := by
  intro rest hrest
  have hread := readNumber?_append h hrest
  rw [String.ofList_toList] at hread
  obtain ⟨c, cs, heq, hc⟩ := exists_cons_of_isNumber h
  rw [heq] at hread ⊢
  simp only [cons_append] at hread ⊢
  unfold readValue?
  split
  case h_7 =>
    rw [hread]
    rfl
  -- a number begins with none of the characters of the other values
  all_goals exact absurd hc (by decide)

theorem reads_fieldText (hsp : sp.IsBlank) (hregular : f.2.Regular)
    (hvalue : Reads (readValue? fuel) (writeAt sp depth f.2) f.2)
    (hfuel : (fieldText sp depth f).length ≤ fuel) :
    Reads (readField? (readValue? fuel) fuel) (fieldText sp depth f) (some f) := by
  intro rest hrest
  obtain ⟨name, j⟩ := f
  simp only [fieldText, length_append] at hfuel
  simp only [fieldText, List.append_assoc, cons_append]
  rw [readField?, readString?_writeString name _ (by omega)]
  dsimp only [Option.bind_eq_bind, Option.bind_some]
  have hcolon (cs : List Char) : expect? [':'] (skipSpace (':' :: cs)) = some cs := rfl
  rw [hcolon]
  dsimp only [Option.bind_some]
  rw [skipSpace_begins (hregular.begins sp depth) hsp.afterColon, hvalue rest hrest]
  rfl

theorem ofFields_map_some (fields : List (String × Json)) :
    ofFields (fields.map some) = .object fields := by
  have h : (fields.map some).mapM id = some fields := by
    induction fields with
    | nil => rfl
    | cons f fs ih => simp [ih]
  rw [ofFields, h]

section Values

variable {sp : Spacing} (hsp : sp.IsBlank) {depth fuel : Nat}
include hsp

theorem reads_array (hfuel : items.length ≤ fuel)
    (h : ∀ j ∈ items, j.Regular ∧ Reads (readValue? fuel) (writeAt sp (depth + 1) j) j) :
    Reads (readValue? (fuel + 1)) (writeAt sp depth (.array items)) (.array items) := by
  intro rest _
  have hitems : List.Forall₂ (fun t a => Reads (readValue? fuel) t a ∧ Begins ']' t)
      (items.map (writeAt sp (depth + 1))) items := by
    rw [forall₂_map_left_iff, forall₂_same]
    intro j hj
    obtain ⟨hregular, hread⟩ := h j hj
    exact ⟨hread, hregular.begins sp _⟩
  rw [← length_map (writeAt sp (depth + 1))] at hfuel
  obtain ⟨inner, hinner, hread⟩ :=
    readContainer?_writeItems hsp (.inl rfl) hitems depth '[' rest hfuel
  rw [writeAt, writeAll_eq_map, hinner]
  show (readContainer? (readValue? fuel) ']' fuel (inner ++ rest)).map _ = _
  rw [hread]
  rfl

theorem reads_object (hfuel : fields.length ≤ fuel)
    (h : ∀ f ∈ fields,
      Reads (readField? (readValue? fuel) fuel) (fieldText sp (depth + 1) f) (some f)) :
    Reads (readValue? (fuel + 1)) (writeAt sp depth (.object fields)) (.object fields) := by
  intro rest _
  have hfields : List.Forall₂
      (fun t a => Reads (readField? (readValue? fuel) fuel) t a ∧ Begins '\x7d' t)
      (fields.map (fieldText sp (depth + 1))) (fields.map some) := by
    rw [forall₂_map_left_iff, forall₂_map_right_iff, forall₂_same]
    intro f hf
    exact ⟨h f hf, '"', _, rfl, rfl, by decide⟩
  rw [← length_map (fieldText sp (depth + 1))] at hfuel
  obtain ⟨inner, hinner, hread⟩ :=
    readContainer?_writeItems hsp (.inr rfl) hfields depth '\x7b' rest hfuel
  rw [writeAt, writeFields_eq_map, hinner]
  show (readContainer? (readField? (readValue? fuel) fuel) '\x7d' fuel (inner ++ rest)).map _ = _
  rw [hread, ← ofFields_map_some]
  rfl

/-- **A value is read back from its text**, at any depth. -/
theorem readValue?_writeAt (h : j.Regular) (hfuel : (writeAt sp depth j).length ≤ fuel) :
    Reads (readValue? (fuel + 1)) (writeAt sp depth j) j := by
  induction h generalizing depth fuel with
  | null => exact fun rest _ => rfl
  | bool b => cases b <;> exact fun rest _ => rfl
  | number htext => exact reads_number htext fuel
  | string s =>
    intro rest _
    show (readString? fuel (writeString s ++ rest)).map _ = _
    rw [readString?_writeString s rest hfuel]
    rfl
  | @array items hregular ih =>
    obtain ⟨hcount, hlength⟩ := lt_length_writeItems sp depth '[' ']'
      (writeAll sp (depth + 1) items)
    rw [← writeAt, writeAll_eq_map] at hcount hlength
    rw [length_map] at hcount
    -- the items are read with less fuel, but they are shorter too
    obtain ⟨fuel, rfl⟩ : ∃ n, fuel = n + 1 := ⟨fuel - 1, by omega⟩
    refine reads_array hsp (by omega) fun j hj => ⟨hregular j hj, ih j hj ?_⟩
    have := hlength _ (mem_map_of_mem hj)
    omega
  | @object fields hregular ih =>
    obtain ⟨hcount, hlength⟩ := lt_length_writeItems sp depth '\x7b' '\x7d'
      (writeFields sp (depth + 1) fields)
    rw [← writeAt, writeFields_eq_map] at hcount hlength
    rw [length_map] at hcount
    obtain ⟨fuel, rfl⟩ : ∃ n, fuel = n + 1 := ⟨fuel - 1, by omega⟩
    refine reads_object hsp (by omega) fun f hf => ?_
    have hlt := hlength _ (mem_map_of_mem hf)
    have hvalue : (writeAt sp (depth + 1) f.2).length ≤ fuel := by
      simp only [fieldText, length_append] at hlt
      omega
    exact reads_fieldText hsp (hregular f hf) (ih f hf hvalue) (by omega)

/-- **A value is read back from its whole text.** -/
theorem read?_write (h : j.Regular) : read? (j.write sp) = some j := by
  have hread : readValue? ((writeAt sp 0 j).length + 1) (writeAt sp 0 j ++ []) = some (j, []) :=
    readValue?_writeAt hsp h (Nat.le_refl _) [] ends_nil
  have hskip : skipSpace (writeAt sp 0 j) = writeAt sp 0 j := by
    obtain ⟨c, cs, heq, hc, -⟩ := h.begins sp 0
    rw [heq]
    exact skipSpace_append (forall_mem_nil _) hc cs
  rw [append_nil] at hread
  rw [read?, write, String.toList_ofList, hskip, hread]
  rfl

end Values

end Quantity.Text.Json
