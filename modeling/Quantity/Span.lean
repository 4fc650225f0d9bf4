/-!
# Places in a definitions text

Positions count bytes from the start, and lines and columns from one. A span runs from its
first character to its last.
-/

namespace Quantity

/-- A place between two characters. -/
structure Position where
  /-- Bytes before the place. -/
  offset : Nat
  /-- The line of the next character. -/
  line : Nat
  /-- The column of the next character. -/
  column : Nat
  deriving DecidableEq, Repr

namespace Position

def start : Position := ⟨0, 1, 1⟩

def next (p : Position) (c : Char) : Position :=
  if c = '\n' then ⟨p.offset + c.utf8Size, p.line + 1, 1⟩
  else ⟨p.offset + c.utf8Size, p.line, p.column + 1⟩

def after (p : Position) (cs : List Char) : Position := cs.foldl next p

end Position

/-- A stretch of text: byte offsets, and line and column of its first and last character. -/
structure Span where
  start : Nat := 0
  stop : Nat := 0
  line : Nat := 0
  column : Nat := 0
  endLine : Nat := 0
  endColumn : Nat := 0
  deriving DecidableEq, Repr, Inhabited

namespace Span

def ofText (p : Position) (cs : List Char) : Span :=
  let last := p.after cs.dropLast
  { start := p.offset
    stop := (p.after cs).offset
    line := p.line
    column := p.column
    endLine := last.line
    endColumn := last.column }

/-- The span from the start of the earlier to the end of the later of two spans. -/
def upTo (a b : Span) : Span :=
  let (first, last) := if a.start ≤ b.start then (a, b) else (b, a)
  { start := first.start
    stop := max first.stop last.stop
    line := first.line
    column := first.column
    endLine := last.endLine
    endColumn := last.endColumn }

/-- The place of the first character, as it is shown in messages. -/
def text (s : Span) : String := toString s.line ++ ":" ++ toString s.column

end Span

end Quantity
