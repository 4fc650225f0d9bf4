import Quantity.Proofs.Token.Append
import Mathlib.Data.List.Chain
import Mathlib.Data.List.Induction

/-!
# Tokens tile their text

The tokens of a text are cut off its front one after the other, and where each of them stands is
computed along the way. Here both are compared with the text as a whole: `all_tile` says that the
tokens follow each other without gaps from the first byte to the last, and that the lines and
columns of their spans are those that one counts in the text.
-/

namespace Quantity

open List

/-! ### Places that are counted -/

namespace Position

/-- The place behind a text: bytes, lines and columns are counted in the text itself. -/
def counted (before : List Char) : Position where
  offset := (String.ofList before).utf8ByteSize
  line := 1 + before.count '\n'
  column := 1 + (before.reverse.takeWhile (· ≠ '\n')).length

theorem counted_append_singleton (before : List Char) (c : Char) :
    counted (before ++ [c]) = (counted before).next c := by
  have hoffset : (String.ofList (before ++ [c])).utf8ByteSize =
      (String.ofList before).utf8ByteSize + c.utf8Size := by
    rw [String.ofList_append, String.utf8ByteSize_append, ← String.singleton_eq_ofList,
      String.utf8ByteSize_singleton]
  unfold counted next
  rw [hoffset]
  split_ifs with hc
  · subst hc
    simp [Nat.add_assoc]
  · simp [hc, Nat.add_comm 1]

/-- **Places are computed as they are counted.** -/
theorem counted_append (before text : List Char) :
    counted (before ++ text) = (counted before).after text := by
  induction text using List.reverseRecOn with
  | nil => rw [append_nil]; rfl
  | append_singleton text c ih =>
    rw [← List.append_assoc, counted_append_singleton, ih, after_append]
    rfl

end Position

/-! ### One lexeme -/

/-- A lexeme keeps its source as its value unless it is a text in quotes or a verbatim name. -/
theorem Lexeme.value_scan (c : Char) (cs : List Char) (hstring : (scan c cs).kind ≠ .string)
    (hverbatim : (scan c cs).kind ≠ .identifier true) :
    (scan c cs).value = c :: (scan c cs).tail := by
  have hscan := scanned_scan c cs
  generalize scan c cs = l at hstring hverbatim hscan
  cases hscan with
  | string => exact absurd rfl hstring
  | verbatim => exact absurd rfl hverbatim
  | _ => rfl

/-! ### All tokens -/

namespace Token

/-- **The token stands behind `before`, and `source` is its text.** Its span begins and ends there,
with the lines and columns of its first and its last character. -/
structure Stands (before source : List Char) (t : Token) : Prop where
  nonempty : source ≠ []
  start : t.span.start = (String.ofList before).utf8ByteSize
  stop : t.span.stop = (String.ofList (before ++ source)).utf8ByteSize
  line : t.span.line = 1 + before.count '\n'
  column : t.span.column = 1 + (before.reverse.takeWhile (· ≠ '\n')).length
  endLine : t.span.endLine = 1 + (before ++ source.dropLast).count '\n'
  endColumn : t.span.endColumn =
    1 + ((before ++ source.dropLast).reverse.takeWhile (· ≠ '\n')).length
  /-- The value is the text itself, but for texts in quotes and verbatim names. -/
  value : t.kind ≠ .string → t.kind ≠ .identifier true → t.value = String.ofList source

/-- The tokens stand behind each other, from `before` to the end of the text that follows it. -/
inductive Tile : (before : List Char) → List Token → (text : List Char) → Prop
  | nil {before : List Char} : Tile before [] []
  | cons {before source text : List Char} {t : Token} {ts : List Token} (hkind : t.kind ≠ .eof)
      (ht : t.Stands before source) (hts : Tile (before ++ source) ts text) :
      Tile before (t :: ts) (source ++ text)

/-- A lexeme becomes a token that stands where the lexeme begins. -/
theorem stands_ofLexeme (before : List Char) (c : Char) (cs : List Char) :
    (ofLexeme (.counted before) c (Lexeme.scan c cs)).Stands before
      (c :: (Lexeme.scan c cs).tail) := by
  have hlast := Position.counted_append before (c :: (Lexeme.scan c cs).tail).dropLast
  refine ⟨cons_ne_nil _ _, rfl, ?_, rfl, rfl, ?_, ?_, fun hstring hname => ?_⟩
  · exact (congrArg Position.offset (Position.counted_append before _)).symm
  · exact (congrArg Position.line hlast).symm
  · exact (congrArg Position.column hlast).symm
  · exact congrArg String.ofList (Lexeme.value_scan c cs hstring hname)

/-- **Step by step, the tokens tile what is left of the text.** -/
theorem exists_tile {p : Position} {before : List Char} (hp : p = .counted before)
    (text : List Char) :
    ∃ tokens stop, allFrom p text = tokens ++ [stop] ∧ stop.kind = .eof ∧
      Tile before tokens text := by
  fun_induction allFrom p text generalizing before with
  | case1 => exact ⟨[], _, rfl, rfl, .nil⟩
  | case2 p c cs l =>
    rename_i ih
    subst hp
    obtain ⟨tokens, stop, hall, hstop, htile⟩ := ih (Position.counted_append before _).symm
    refine ⟨ofLexeme (.counted before) c l :: tokens, stop, congrArg _ hall, hstop, ?_⟩
    have hsplit : c :: cs = (c :: l.tail) ++ l.rest := by
      rw [cons_append, Lexeme.tail_append_rest]
    rw [hsplit]
    exact .cons (Lexeme.scan_kind_ne_eof c cs) (stands_ofLexeme before c cs) htile

section Tile

variable {before text : List Char} {tokens : List Token}

theorem Tile.exists_stands (h : Tile before tokens text) (ht : t ∈ tokens) :
    t.kind ≠ .eof ∧ ∃ pre source post, text = pre ++ source ++ post ∧
      t.Stands (before ++ pre) source := by
  induction h with
  | nil => cases ht
  | @cons before source text u ts hkind hu _ ih =>
    rcases mem_cons.mp ht with rfl | ht
    · exact ⟨hkind, [], source, text, rfl, by rwa [append_nil]⟩
    · obtain ⟨hkind, pre, source', post, rfl, hstands⟩ := ih ht
      refine ⟨hkind, source ++ pre, source', post, ?_, List.append_assoc .. ▸ hstands⟩
      simp only [List.append_assoc]

theorem Tile.start_eq (h : Tile before tokens text) (ht : tokens.head? = some t) :
    t.span.start = (String.ofList before).utf8ByteSize := by
  cases h with
  | nil => cases ht
  | cons _ hu _ =>
    cases ht
    exact hu.start

theorem Tile.isChain (h : Tile before tokens text) :
    tokens.IsChain fun t u => u.span.start = t.span.stop := by
  induction h with
  | nil => exact .nil
  | cons _ hu htile ih =>
    refine isChain_cons.mpr ⟨fun v hv => ?_, ih⟩
    exact (htile.start_eq hv).trans hu.stop.symm

theorem Tile.stop_eq (h : Tile before tokens text) (ht : tokens.getLast? = some t) :
    t.span.stop = (String.ofList (before ++ text)).utf8ByteSize := by
  induction h with
  | nil => cases ht
  | @cons before source text u ts _ hu htile ih =>
    rw [← List.append_assoc]
    rw [getLast?_cons] at ht
    cases hlast : ts.getLast? with
    | none =>
      obtain rfl := getLast?_eq_none_iff.mp hlast
      cases htile
      cases ht
      rw [append_nil]
      exact hu.stop
    | some v =>
      rw [hlast] at ht
      cases ht
      exact ih hlast

theorem Tile.eq_nil (h : Tile before [] text) : text = [] := by
  cases h
  rfl

end Tile

theorem Stands.lt {t : Token} (h : t.Stands before source) : t.span.start < t.span.stop := by
  have hpos : (String.ofList source).utf8ByteSize ≠ 0 := by
    rw [ne_eq, String.utf8ByteSize_eq_zero_iff]
    exact fun hempty => h.nonempty (by simpa using congrArg String.toList hempty)
  rw [h.start, h.stop, String.ofList_append, String.utf8ByteSize_append]
  omega

/-- **The tokens of a text tile it.** There are finitely many up to the end mark; none of them is
empty, the first begins at the first byte, each begins where the one before it ends, and the last
ends at the last byte. Each stands in the text where its span says, with the lines and columns that
are counted there, and its value is its text, but for texts in quotes and verbatim names. -/
theorem all_tile (text : String) :
    ∃ tokens stop, all text = tokens ++ [stop] ∧ stop.kind = .eof ∧
      (∀ t ∈ tokens, t.kind ≠ .eof ∧ t.span.start < t.span.stop) ∧
      (∀ t, tokens.head? = some t → t.span.start = 0) ∧
      (tokens.IsChain fun t u => u.span.start = t.span.stop) ∧
      (∀ t, tokens.getLast? = some t → t.span.stop = text.utf8ByteSize) ∧
      (tokens = [] → text = "") ∧
      ∀ t ∈ tokens, ∃ before source after, text.toList = before ++ source ++ after ∧
        t.Stands before source := by
  obtain ⟨tokens, stop, hall, hstop, htile⟩ := @exists_tile .start [] rfl text.toList
  refine ⟨tokens, stop, hall, hstop, fun t ht => ?_, fun t ht => ?_, htile.isChain, fun t ht => ?_,
    ?_, fun t ht => (htile.exists_stands ht).2⟩
  · obtain ⟨hkind, _, _, _, -, hstands⟩ := htile.exists_stands ht
    exact ⟨hkind, hstands.lt⟩
  · exact htile.start_eq ht
  · rw [htile.stop_eq ht, nil_append, String.ofList_toList]
  · rintro rfl
    exact String.toList_eq_nil_iff.mp htile.eq_nil

end Token

end Quantity
