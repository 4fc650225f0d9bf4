import Quantity.Text.Words
import Quantity.Token.Basic

/-!
# Cutting a text into tokens

`scan` takes one lexeme off the front of a text. What it consumed and what it left are the
text again (`tail_append_rest`), and it always consumes a character, so that cutting a whole
text ends. Positions are computed from the consumed text alone.
-/

namespace Quantity

/-- A lexeme at the front of a text: its kind and value, the characters consumed after the
first one, and the rest of the text. -/
structure Lexeme where
  kind : TokenKind
  value : List Char
  tail : List Char
  rest : List Char

namespace Lexeme

def startsName (c : Char) : Bool := Text.isLetter c || c = '_'

def continuesName (c : Char) : Bool := Text.isNameChar c || c = '_'

def plain (kind : TokenKind) (c : Char) (tail rest : List Char) : Lexeme :=
  ⟨kind, c :: tail, tail, rest⟩

/-! ### Comments -/

/-- The text up to and with the end of a block comment, and the rest. -/
def closeComment? : List Char → Option (List Char × List Char)
  | [] => none
  | '*' :: '/' :: cs => some (['*', '/'], cs)
  | c :: cs => (closeComment? cs).map fun (text, rest) => (c :: text, rest)

/-- A comment to the end of the line; `cs` follows the two slashes. -/
def lineComment (cs : List Char) : Lexeme :=
  plain .comment '/' ('/' :: cs.takeWhile (· ≠ '\n')) (cs.dropWhile (· ≠ '\n'))

/-- A comment up to its end mark; `cs` follows the slash and the star. -/
def blockComment (cs : List Char) : Lexeme :=
  match closeComment? cs with
  | some (text, rest) => plain .comment '/' ('*' :: text) rest
  | none => plain (.error .unterminatedComment) '/' ('*' :: cs) []

/-! ### Texts in quotes -/

/-- What follows an opening quote: the value, whether the closing quote was found, the text
consumed and the rest. -/
structure StringBody where
  value : List Char
  closed : Bool
  text : List Char
  rest : List Char

def StringBody.push (value : Option Char) (text : List Char) (b : StringBody) : StringBody :=
  { b with value := value.toList ++ b.value, text := text ++ b.text }

/-- The character that an escaped character stands for. -/
def unescape : Char → Char
  | 'n' => '\n'
  | 't' => '\t'
  | c => c

/-- Read up to the closing quote. A line feed ends the attempt, also after a backslash. -/
def stringBody : List Char → StringBody
  | [] => ⟨[], false, [], []⟩
  | '"' :: cs => ⟨[], true, ['"'], cs⟩
  | '\n' :: cs => ⟨[], false, [], '\n' :: cs⟩
  | '\\' :: cs =>
    match cs with
    | [] => ⟨[], false, ['\\'], []⟩
    | '\n' :: cs => ⟨[], false, ['\\'], '\n' :: cs⟩
    | c :: cs => (stringBody cs).push (some (unescape c)) ['\\', c]
  | c :: cs => (stringBody cs).push (some c) [c]

/-- A text in quotes; `cs` follows the opening quote. -/
def quoted (cs : List Char) : Lexeme :=
  let b := stringBody cs
  if b.closed then ⟨.string, b.value, b.text, b.rest⟩
  else plain (.error .unterminatedString) '"' b.text b.rest

/-! ### Names -/

def name (c : Char) (cs : List Char) : Lexeme :=
  plain (.identifier false) c (cs.takeWhile continuesName) (cs.dropWhile continuesName)

/-- A name after an at sign; it may begin with a digit. -/
def verbatimName (cs : List Char) : Lexeme :=
  match cs.takeWhile continuesName with
  | [] => plain (.error .missingName) '@' [] cs
  | body => ⟨.identifier true, body, body, cs.dropWhile continuesName⟩

/-! ### Numbers -/

/-- The part of a number after its digits and fraction. -/
def exponentPart (c : Char) (before cs : List Char) : Lexeme :=
  match cs with
  | mark :: rest =>
    if mark = 'e' || mark = 'E' then
      let (sign, rest) := match rest with
        | '+' :: rest => (['+'], rest)
        | '-' :: rest => (['-'], rest)
        | rest => ([], rest)
      let before := before ++ mark :: sign
      match rest.takeWhile Char.isDigit with
      | [] =>
        plain (.error .missingExponent) c (before ++ rest.takeWhile continuesName)
          (rest.dropWhile continuesName)
      | digits => plain .number c (before ++ digits) (rest.dropWhile Char.isDigit)
    else plain .number c before cs
  | [] => plain .number c before []

def fractionPart (c : Char) (before cs : List Char) : Lexeme :=
  match cs.takeWhile Char.isDigit with
  | [] => plain (.error .missingFraction) c before cs
  | digits => exponentPart c (before ++ digits) (cs.dropWhile Char.isDigit)

/-- A number that begins with the digit or point `c`. -/
def number (c : Char) (cs : List Char) : Lexeme :=
  if c = '.' then fractionPart c [] cs
  else
    let digits := cs.takeWhile Char.isDigit
    match cs.dropWhile Char.isDigit with
    | '.' :: rest => fractionPart c (digits ++ ['.']) rest
    | rest => exponentPart c digits rest

/-! ### All lexemes -/

def startsWithDigit (cs : List Char) : Bool := cs.head?.any Char.isDigit

def symbol (c : Char) (cs : List Char) : Lexeme :=
  plain ((TokenKind.ofSymbol? c).getD (.error (.unexpected c))) c [] cs

def slash : List Char → Lexeme
  | '/' :: cs => lineComment cs
  | '*' :: cs => blockComment cs
  | cs => symbol '/' cs

/-- The lexeme at the front of the text `c :: cs`. -/
def scan (c : Char) (cs : List Char) : Lexeme :=
  if Text.isBlank c then
    plain .whitespace c (cs.takeWhile Text.isBlank) (cs.dropWhile Text.isBlank)
  else if c = '/' then slash cs
  else if c = '"' then quoted cs
  else if c = '@' then verbatimName cs
  else if startsName c then name c cs
  else if c.isDigit || (c = '.' && startsWithDigit cs) then number c cs
  else symbol c cs

/-! ### Nothing is lost -/

theorem closeComment?_append {cs text rest : List Char}
    (h : closeComment? cs = some (text, rest)) : text ++ rest = cs := by
  fun_induction closeComment? cs generalizing text rest with
  | case1 => simp at h
  | case2 cs =>
    obtain ⟨rfl, rfl⟩ : ['*', '/'] = text ∧ cs = rest := by simpa using h
    rfl
  | case3 c cs _ ih =>
    obtain ⟨⟨t, r⟩, hc, h⟩ := Option.map_eq_some_iff.1 h
    obtain ⟨rfl, rfl⟩ := Prod.mk.injEq .. ▸ h
    simp [ih hc]

@[simp] theorem StringBody.push_text (v : Option Char) (t : List Char) (b : StringBody) :
    (b.push v t).text = t ++ b.text := rfl

@[simp] theorem StringBody.push_rest (v : Option Char) (t : List Char) (b : StringBody) :
    (b.push v t).rest = b.rest := rfl

theorem stringBody_append (cs : List Char) : (stringBody cs).text ++ (stringBody cs).rest = cs := by
  fun_induction stringBody cs <;> simp_all

theorem exponentPart_append (c : Char) (before cs : List Char) :
    (exponentPart c before cs).tail ++ (exponentPart c before cs).rest = before ++ cs := by
  unfold exponentPart
  split
  · next mark rest =>
    split
    · split
      next x sign rest' h =>
      have hr : sign ++ rest' = rest := by
        split at h <;> (obtain ⟨rfl, rfl⟩ := Prod.mk.injEq .. ▸ h) <;> rfl
      subst hr
      split
      · simp [plain]
      · simp [plain]
    · simp [plain]
  · simp [plain]

theorem fractionPart_append (c : Char) (before cs : List Char) :
    (fractionPart c before cs).tail ++ (fractionPart c before cs).rest = before ++ cs := by
  unfold fractionPart
  split
  · simp [plain]
  · rw [exponentPart_append, List.append_assoc, List.takeWhile_append_dropWhile]

theorem number_append (c : Char) (cs : List Char) :
    (number c cs).tail ++ (number c cs).rest = cs := by
  unfold number
  split
  · simp [fractionPart_append]
  · split
    · next rest h =>
      rw [fractionPart_append, List.append_assoc, List.singleton_append, ← h,
        List.takeWhile_append_dropWhile]
    · rw [exponentPart_append, List.takeWhile_append_dropWhile]

theorem tail_append_rest (c : Char) (cs : List Char) :
    (scan c cs).tail ++ (scan c cs).rest = cs := by
  unfold scan
  split
  · simp [plain]
  split
  · unfold slash
    split
    · simp [lineComment, plain]
    · next cs =>
      unfold blockComment
      split
      · next h => simp [plain, closeComment?_append h]
      · simp [plain]
    · simp [symbol, plain]
  split
  · unfold quoted
    simp only
    split <;> simp [plain, stringBody_append]
  split
  · unfold verbatimName
    split
    · simp [plain]
    · simp
  split
  · simp [name, plain]
  split
  · exact number_append c cs
  · simp [symbol, plain]

theorem rest_length_le (c : Char) (cs : List Char) : (scan c cs).rest.length ≤ cs.length := by
  have h := congrArg List.length (tail_append_rest c cs)
  simp at h
  omega

end Lexeme

namespace Token

/-- The token of a lexeme that begins with `c` at a place. -/
def ofLexeme (p : Position) (c : Char) (l : Lexeme) : Token :=
  ⟨l.kind, String.ofList l.value, Span.ofText p (c :: l.tail)⟩

/-- The tokens of a text that begins at a place, blanks and comments included, up to the
mark of its end. -/
def allFrom (p : Position) (cs : List Char) : List Token :=
  match cs with
  | [] => [⟨.eof, "", Span.ofText p []⟩]
  | c :: cs =>
    let l := Lexeme.scan c cs
    ofLexeme p c l :: allFrom (p.after (c :: l.tail)) l.rest
termination_by cs.length
decreasing_by
  have := Lexeme.rest_length_le c cs
  simp
  omega

def all (text : String) : List Token := allFrom .start text.toList

/-- The tokens of a text without blanks and comments. -/
def significant (text : String) : List Token := (all text).filter fun t => !t.kind.isTrivia

end Token

end Quantity
