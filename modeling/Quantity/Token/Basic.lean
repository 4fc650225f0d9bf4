import Quantity.Span
import Quantity.Text.Quoted

/-!
# Tokens

The lexical elements of definitions. Malformed text is a token as well, with the reason why
it is no other one, so that nothing of a text is lost.
-/

namespace Quantity

/-- Why a piece of text is no token. -/
inductive LexError where
  /-- A block comment without its end. -/
  | unterminatedComment
  /-- A text in quotes without its end on the same line. -/
  | unterminatedString
  /-- An at sign without a name. -/
  | missingName
  /-- A decimal point without digits behind it. -/
  | missingFraction
  /-- An exponent without digits. -/
  | missingExponent
  /-- A character that begins no token. -/
  | unexpected (c : Char)
  deriving DecidableEq, Repr

def LexError.message : LexError → String
  | unterminatedComment => "Unterminated block comment"
  | unterminatedString => "Unterminated string literal"
  | missingName => "Expected an identifier after '@'"
  | missingFraction => "Invalid numeral: expected digits after '.'"
  | missingExponent => "Invalid numeral: expected exponent digits"
  | unexpected c => "Unexpected character '" ++ String.ofList (Text.escapeChar c) ++ "'"

/-- What a token is. -/
inductive TokenKind where
  | whitespace
  | comment
  | number
  | string
  /-- A name; after an at sign it is never taken for a keyword or a constant. -/
  | identifier (verbatim : Bool)
  | minus
  | plus
  | times
  | divide
  | equal
  | less
  | greater
  | pipe
  | caret
  | colon
  | semicolon
  | dot
  | openParen
  | closeParen
  /-- The end of the text. -/
  | eof
  /-- Malformed text. -/
  | error (cause : LexError)
  deriving DecidableEq, Repr

namespace TokenKind

def isTrivia : TokenKind → Bool
  | whitespace | comment => true
  | _ => false

def describe : TokenKind → String
  | whitespace => "whitespace"
  | comment => "comment"
  | number => "number"
  | string => "string literal"
  | identifier _ => "identifier"
  | minus => "'-'"
  | plus => "'+'"
  | times => "'*'"
  | divide => "'/'"
  | equal => "'='"
  | less => "'<'"
  | greater => "'>'"
  | pipe => "'|'"
  | caret => "'^'"
  | colon => "':'"
  | semicolon => "';'"
  | dot => "'.'"
  | openParen => "'('"
  | closeParen => "')'"
  | eof => "end of input"
  | error _ => "invalid token"

/-- The token of a character that is a token by itself. -/
def ofSymbol? : Char → Option TokenKind
  | '.' => some dot
  | '-' => some minus
  | '+' => some plus
  | '*' => some times
  | '/' => some divide
  | '=' => some equal
  | '<' => some less
  | '>' => some greater
  | '|' => some pipe
  | '^' => some caret
  | ':' => some colon
  | ';' => some semicolon
  | '(' => some openParen
  | ')' => some closeParen
  | _ => none

end TokenKind

/-- A token of a text: its kind, what it stands for, and where it is. -/
structure Token where
  kind : TokenKind
  /-- The name without the at sign, the text without quotes and escapes; else the source. -/
  value : String
  span : Span
  deriving DecidableEq, Repr

/-- The words that begin or join the parts of declarations. -/
inductive Keyword where
  | unit
  | scale
  | from
  deriving DecidableEq, Repr

def Keyword.word : Keyword → String
  | unit => "unit"
  | scale => "scale"
  | .from => "from"

namespace Token

/-- Whether the token is the keyword, in any case of its letters. -/
def isKeyword (t : Token) (k : Keyword) : Bool :=
  t.kind = .identifier false && t.value.toList.map Char.toLower = k.word.toList

def startsDeclaration (t : Token) : Bool := t.isKeyword .unit || t.isKeyword .scale

/-- The token as it is named in a message about what was found. -/
def found (t : Token) : String :=
  match t.kind with
  | .identifier _ | .number => t.kind.describe ++ " '" ++ t.value ++ "'"
  | .string => "string literal \"" ++ t.value ++ "\""
  | kind => kind.describe

end Token

end Quantity
