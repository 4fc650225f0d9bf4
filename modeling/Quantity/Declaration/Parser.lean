import Quantity.Declaration.Basic
import Quantity.Diagnostic
import Quantity.Token.Lexer

/-!
# Reading declarations

Declarations are read with one token in view. A fault is reported and the declaration is
given up; reading goes on after the next semicolon or before the next keyword, so that one
fault hides no other. In numeral expressions signs bind more tightly than products and
products more tightly than sums; dimension expressions have products only.
-/

namespace Quantity

/-- What can be wrong with a declaration. -/
inductive ParseError where
  /-- Something else should stand where the token is. -/
  | expected (what : String) (found : Token)
  /-- Powers are not written with a caret. -/
  | caret
  /-- Too many signs and parentheses inside each other. -/
  | tooDeep
  | unknownKind (name : String)
  | unknownMagnitude (name : String)
  /-- A unit has no such property. -/
  | unknownProperty (unit property : String)
  deriving DecidableEq, Repr

/-- The most signs and parentheses that may be open at a place. -/
def maxNesting : Nat := 200

def ParseError.message : ParseError → String
  | expected what found => "Expected " ++ what ++ ", found " ++ found.found
  | caret => "Exponentiation '^' is not supported; write powers as products (Meter * Meter)"
  | tooDeep => "Expression too deeply nested (max depth: " ++ toString maxNesting ++ ")"
  | unknownKind name =>
    "Unknown numeric type '" ++ name ++ "' (expected double, float or decimal)"
  | unknownMagnitude name => "Unknown magnitude '" ++ name ++ "'"
  | unknownProperty unit property =>
    "Unknown unit property '" ++ property ++ "' (only '" ++ unit ++ ".Factor' is available)"

namespace Parser

/-- The token in view, the tokens behind it, and what was reported so far. -/
structure State where
  current : Token
  rest : List Token
  diagnostics : Diagnostics

/-- A reader of a part of a declaration: a value, or none after a fault. -/
def Parse (α : Type) : Type := State → Option α × State

instance : Monad Parse where
  pure a := fun s => (some a, s)
  bind x f := fun s => match x s with
    | (some a, s) => f a s
    | (none, s) => (none, s)

/-! ### Steps -/

/-- Report malformed text when it comes into view. -/
def reportLexError (ds : Diagnostics) (t : Token) : Diagnostics :=
  match t.kind with
  | .error e => ds.push (.errorAt .lex t.span e.message)
  | _ => ds

/-- The state with the next token in view; the last one stays there. -/
def State.advance (s : State) : State :=
  match s.rest with
  | [] => s
  | t :: ts => ⟨t, ts, reportLexError s.diagnostics t⟩

theorem State.advance_length_lt (s : State) (h : s.rest.length ≠ 0) :
    s.advance.rest.length < s.rest.length := by
  unfold State.advance
  split
  · simp_all
  · simp_all

/-- The kind of the token in view. -/
def State.kind (s : State) : TokenKind := s.current.kind

/-- Go on to the next token. -/
def advance : Parse Unit := fun s => (some (), s.advance)

/-- The token in view. -/
def look : Parse Token := fun s => (some s.current, s)

/-- The token behind the one in view. -/
def lookAhead : Parse Token := fun s => (some (s.rest.headD s.current), s)

/-- How many tokens are behind the one in view. -/
def remaining : Parse Nat := fun s => (some s.rest.length, s)

/-- The token in view, which is left behind. -/
def take : Parse Token := fun s => (some s.current, s.advance)

/-- Report an error and give up. -/
def fail {α : Type} (span : Span) (e : ParseError) : Parse α := fun s =>
  (none, { s with diagnostics := s.diagnostics.push (.errorAt .parse span e.message) })

/-- Report an error at the token in view and give up. -/
def failHere {α : Type} (e : ParseError) : Parse α := fun s => fail s.current.span e s

/-- Report that something else was expected, unless the token was reported as malformed. -/
def unexpected {α : Type} (what : String) : Parse α := fun s =>
  match s.kind with
  | .error _ => (none, s)
  | _ => failHere (.expected what s.current) s

/-- A token of the kind. -/
def expect (kind : TokenKind) : Parse Token := do
  let t ← look
  if t.kind = kind then take else unexpected kind.describe

/-- Whether the token is a name. -/
def isName (t : Token) : Bool :=
  match t.kind with
  | .identifier _ => true
  | _ => false

/-- A name; other tokens are reported as not `what` was expected. -/
def expectName (what : String) : Parse Token := do
  if isName (← look) then take else unexpected what

/-- Whether the token is a name that stands for a constant. -/
def isConstant (t : Token) : Bool := t.kind = .identifier false && isNamedConstant t.value

/-! ### Nesting -/

/-- A reader that counts the signs and parentheses that are open. A fault leaves the count as it
was then. -/
def Counted (α : Type) : Type := State × Nat → Option α × State × Nat

instance : Monad Counted where
  pure a := fun s => (some a, s)
  bind x f := fun s => match x s with
    | (some a, s) => f a s
    | (none, s) => (none, s)

instance : MonadLift Parse Counted where
  monadLift x := fun (s, count) => ((x s).1, (x s).2, count)

namespace Counted

/-- Count a sign or a parenthesis that is opened. -/
def enter : Counted Unit := fun (s, count) => (some (), s, count + 1)

/-- Give up if one too many is open. -/
def check : Counted Unit := fun s =>
  (if maxNesting < s.2 then failHere .tooDeep else pure () : Counted Unit) s

/-- The sign or parenthesis that was opened last is closed. -/
def leave : Counted Unit := fun (s, count) => (some (), s, count - 1)

/-- Read what stands behind a sign or in parentheses, unless it is nested too deeply. -/
def nested (inner : Counted Expr) : Counted Expr := do
  enter
  check
  let e ← inner
  leave
  pure e

/-- Read with `count` of them open at first. -/
def run {α : Type} (x : Counted α) (count : Nat) : Parse α := fun s =>
  let (a, s, _) := x (s, count)
  (a, s)

end Counted

/-! ### Expressions

What the readers of expressions do does not depend on whether they count. -/

section Expressions

variable {m : Type → Type} [Monad m] [MonadLiftT Parse m]

/-- Go on with operands as long as operators of a level follow; `fuel` bounds their number. -/
def chainFrom (operand : m Expr) (operator? : TokenKind → Option Arith) :
    (fuel : Nat) → Expr → m Expr
  | 0, left => pure left
  | fuel + 1, left => do
    match operator? (← look).kind with
    | none => pure left
    | some op =>
      advance
      let right ← operand
      chainFrom operand operator? fuel (.arith op left right)

/-- Operands joined by operators of one level, from left to right. -/
def chain (operand : m Expr) (operator? : TokenKind → Option Arith) : m Expr := do
  let left ← operand
  let fuel ← remaining
  chainFrom operand operator? fuel left

/-- The operators of products. -/
def productOperator? : TokenKind → Option Arith
  | .times => some .product
  | .divide => some .quotient
  | _ => none

/-- The operators of sums. -/
def sumOperator? : TokenKind → Option Arith
  | .plus => some .sum
  | .minus => some .difference
  | _ => none

/-- A magnitude between angle brackets; the opening one is in view. -/
def magnitude : Parse Expr := do
  let start ← take
  let m ←
    if (← look).kind = .greater then pure none
    else do
      let name ← expectName "magnitude name"
      match Magnitude.ofName? name.value with
      | some m => pure (some m)
      | none => fail name.span (.unknownMagnitude name.value)
  let stop ← expect .greater
  pure (.magnitude m (start.span.upTo stop.span))

/-- Products of dimension terms, without a caret behind them. -/
def dimensionOf (term : m Expr) : m Expr := do
  let e ← chain term productOperator?
  if (← look).kind = .caret then failHere .caret else pure e

/-- What stands between parentheses; the opening one is in view. -/
def parenthesized (inner : m Expr) : m Expr := do
  advance
  let e ← inner
  let _ ← expect .closeParen
  pure (.paren e)

/-- A term of a dimension expression; `group` reads one in parentheses. -/
def dimensionTermWith (group : m Expr) : m Expr := do
  let t ← look
  match t.kind with
  | .less => magnitude
  | .number => do
    advance
    pure (.number t.value t.span)
  | .string => do
    advance
    pure (.literal t.value t.span)
  | .identifier _ => do
    advance
    pure (if isConstant t then .literal t.value t.span else .reference t.value t.span)
  | .openParen => group
  | .caret => failHere .caret
  | _ => unexpected "dimension term"

/-- Sums of products of factors. -/
def numeralOf (factor : m Expr) : m Expr :=
  chain (chain factor productOperator?) sumOperator?

/-- The factor of a unit; the name `t` of the unit is taken already. -/
def unitFactor (t : Token) : Parse Expr := do
  let _ ← expect .dot
  let property ← expectName "'Factor'"
  if property.value = "Factor" then pure (.reference t.value (t.span.upTo property.span))
  else fail property.span (.unknownProperty t.value property.value)

/-- A sign and what it applies to; the sign is in view. -/
def signed (operand : m Expr) : m Expr := do
  let sign ← take
  let e ← operand
  pure (.signed (sign.kind = .minus) e)

/-- A factor of a numeral expression; `sign` reads one with a sign in front and `group` one
in parentheses. -/
def numeralFactorWith (sign group : m Expr) : m Expr := do
  let t ← look
  match t.kind with
  | .plus | .minus => sign
  | .number => do
    advance
    pure (.number t.value t.span)
  | .string => do
    advance
    pure (.literal t.value t.span)
  | .identifier _ => do
    advance
    if isConstant t then pure (.literal t.value t.span) else unitFactor t
  | .openParen => group
  | _ => unexpected "numeral expression"

end Expressions

-- The count stops the recursion before `fuel` does.

/-- A term of a dimension expression. -/
def dimensionTerm : (fuel : Nat) → Counted Expr
  | 0 => dimensionTermWith (.nested (failHere .tooDeep))
  | fuel + 1 => dimensionTermWith (.nested (parenthesized (dimensionOf (dimensionTerm fuel))))

/-- A factor of a numeral expression. -/
def numeralFactor : (fuel : Nat) → Counted Expr
  | 0 => numeralFactorWith (.nested (failHere .tooDeep)) (.nested (failHere .tooDeep))
  | fuel + 1 =>
    let factor := numeralFactor fuel
    numeralFactorWith (.nested (signed factor)) (.nested (parenthesized (numeralOf factor)))

/-- A dimension expression. -/
def dimension : Counted Expr := dimensionOf (dimensionTerm maxNesting)

/-- A numeral expression. -/
def numeral : Counted Expr := numeralOf (numeralFactor maxNesting)

/-! ### Declarations -/

/-- The kind of numbers between angle brackets, if given. -/
def kindClause : Parse (Option NumericKind) := do
  if (← look).kind = .less then
    advance
    let word ← expectName "numeric type"
    match NumericKind.ofKeyword? word.value with
    | none => fail word.span (.unknownKind word.value)
    | some kind => do
      let _ ← expect .greater
      pure (some kind)
  else pure none

/-- The texts in quotes from here on; `fuel` bounds their number. -/
def tags : (fuel : Nat) → Parse (List String)
  | 0 => pure []
  | fuel + 1 => do
    let t ← look
    if t.kind = .string then
      advance
      let more ← tags fuel
      pure (t.value :: more)
    else pure []

/-- The texts in quotes from here on, of which there is one at least. -/
def someTags : Parse (List String) := do
  let found ← fun s => tags s.rest.length s
  if found.isEmpty then unexpected "symbol tag (string literal)" else pure found

/-- The format behind a colon, if given. -/
def formatClause : Parse (Option String) := do
  if (← look).kind = .colon then
    advance
    let t ← expect .string
    pure (some t.value)
  else pure none

/-- The point of reference of a scale, if given. -/
def refPointClause : Parse (Option String) := do
  if isName (← look) then
    let t ← take
    pure (some t.value)
  else pure none

/-- Whether the body of a scale begins with its unit. -/
def startsWithUnit : Parse Bool := do
  let t ← look
  let next ← lookAhead
  pure (isName t && !isConstant t && next.kind != .dot)

section Declarations

variable {m : Type → Type} [Monad m] [MonadLiftT Parse m]

/-- Further definitions, each after a bar; `fuel` bounds their number. -/
def alternativesWith (dimension : m Expr) : (fuel : Nat) → m (List Expr)
  | 0 => pure []
  | fuel + 1 => do
    if (← look).kind = .pipe then
      advance
      let e ← dimension
      let more ← alternativesWith dimension fuel
      pure (e :: more)
    else pure []

/-- The declaration of a unit; its keyword is in view. -/
def unitDeclarationWith (dimension : m Expr) : m UnitDecl := do
  let start ← take
  let kind ← kindClause
  let name ← expectName "unit name"
  let tags ← someTags
  let format ← formatClause
  let _ ← expect .equal
  let definition ← dimension
  let fuel ← remaining
  let alternatives ← alternativesWith dimension fuel
  let stop ← expect .semicolon
  pure
    { name := name.value
      span := start.span.upTo stop.span
      kind, tags, format, definition, alternatives }

/-- The unit and the offset of a scale, in one of two orders. -/
def scaleBodyWith (numeral : m Expr) : m (Token × Expr) := do
  if ← startsWithUnit then
    let unit ← take
    let offset ← numeral
    pure (unit, offset)
  else
    let offset ← numeral
    if (← look).isKeyword .from then
      advance
      let unit ← expectName "unit name"
      pure (unit, offset)
    else unexpected "'from'"

/-- The declaration of a scale; its keyword is in view. -/
def scaleDeclarationWith (numeral : m Expr) : m ScaleDecl := do
  let start ← take
  let name ← expectName "scale name"
  let format ← formatClause
  let refPoint ← refPointClause
  let _ ← expect .equal
  let (unit, offset) ← scaleBodyWith numeral
  let stop ← expect .semicolon
  pure
    { name := name.value
      span := start.span.upTo stop.span
      unit := unit.value
      unitSpan := unit.span
      format, refPoint, offset }

end Declarations

/-- The declaration of a unit, with nothing open at first. -/
def unitDeclaration : Parse UnitDecl := (unitDeclarationWith dimension).run 0

/-- The declaration of a scale, with nothing open at first. -/
def scaleDeclaration : Parse ScaleDecl := (scaleDeclarationWith numeral).run 0

/-! ### Whole texts -/

/-- Skip what is left of a declaration that was given up: up to and with a semicolon, or up
to a keyword. -/
def synchronize (s : State) : State :=
  if s.kind = .semicolon then s.advance
  else if s.current.startsDeclaration then s
  else if s.rest.length = 0 then s
  else synchronize s.advance
termination_by s.rest.length
decreasing_by
  next h => exact s.advance_length_lt h

/-- Read a declaration, or skip what is none. -/
def step (s : State) (found : Declarations) : State × Declarations :=
  if s.current.isKeyword .unit then
    match unitDeclaration s with
    | (some u, s) => (s, { found with units := found.units ++ [u] })
    | (none, s) => (synchronize s, found)
  else if s.current.isKeyword .scale then
    match scaleDeclaration s with
    | (some d, s) => (s, { found with scales := found.scales ++ [d] })
    | (none, s) => (synchronize s, found)
  else if s.kind = .semicolon then (s.advance, found)
  else (synchronize ((unexpected "'unit' or 'scale'" : Parse Unit) s).2, found)

/-- Read declarations to the end of the text; every step takes a token, so that their number
bounds the steps. -/
def declarations : (fuel : Nat) → State → Declarations → State × Declarations
  | 0, s, found => (s, found)
  | fuel + 1, s, found =>
    if s.kind = .eof then (s, found)
    else
      let (s, found) := step s found
      declarations fuel s found

end Parser

/-- Read the declarations of a text, and report what is wrong with it. -/
def Declarations.read (source : Option String) (text : String) : Declarations × Diagnostics :=
  match Token.significant text with
  | [] => ({}, { source })
  | t :: ts =>
    let start : Parser.State :=
      { current := t, rest := ts, diagnostics := Parser.reportLexError { source } t }
    let (s, found) := Parser.declarations (ts.length + 1) start {}
    (found, s.diagnostics)

end Quantity
