import Quantity.Declaration.Basic
import Quantity.Diagnostic

/-!
# Declarations elsewhere

Declarations and what is reported about them say where they stand in their text. These are the same
declarations and the same reports with other places.
-/

namespace Quantity

def Expr.move (f : Span → Span) : Expr → Expr
  | number text s => number text (f s)
  | literal name s => literal name (f s)
  | magnitude m s => magnitude m (f s)
  | reference name s => reference name (f s)
  | signed negative e => signed negative (e.move f)
  | paren e => paren (e.move f)
  | arith op l r => arith op (l.move f) (r.move f)

@[simp] theorem Expr.move_id (e : Expr) : e.move id = e := by
  induction e with
  | number | literal | magnitude | reference => rfl
  | signed negative e ih => rw [move, ih]
  | paren e ih => rw [move, ih]
  | arith op l r ihl ihr => rw [move, ihl, ihr]

def UnitDecl.move (f : Span → Span) (d : UnitDecl) : UnitDecl :=
  { d with
    span := f d.span
    definition := d.definition.move f
    alternatives := d.alternatives.map (·.move f) }

@[simp] theorem UnitDecl.move_id (d : UnitDecl) : d.move id = d := by
  simp [move]

def ScaleDecl.move (f : Span → Span) (d : ScaleDecl) : ScaleDecl :=
  { d with
    span := f d.span
    unitSpan := f d.unitSpan
    offset := d.offset.move f }

@[simp] theorem ScaleDecl.move_id (d : ScaleDecl) : d.move id = d := by
  simp [move]

namespace Declarations

def move (f : Span → Span) (ds : Declarations) : Declarations :=
  ⟨ds.units.map (·.move f), ds.scales.map (·.move f)⟩

/-- The declarations of a text and of the one behind it. -/
def append (ds es : Declarations) : Declarations := ⟨ds.units ++ es.units, ds.scales ++ es.scales⟩

@[simp] theorem move_id (ds : Declarations) : ds.move id = ds := by
  simp [move]

@[simp] theorem append_empty (ds : Declarations) : ds.append {} = ds := by
  simp [append]

@[simp] theorem empty_append (ds : Declarations) : append {} ds = ds := rfl

theorem append_assoc (ds es fs : Declarations) :
    (ds.append es).append fs = ds.append (es.append fs) := by
  simp [append]

theorem move_append (f : Span → Span) (ds es : Declarations) :
    (ds.append es).move f = (ds.move f).append (es.move f) := by
  simp [append, move]

end Declarations

def Notice.move (f : Span → Span) (n : Notice) : Notice := { n with span := n.span.map f }

@[simp] theorem Notice.move_id (n : Notice) : n.move id = n := by
  simp [move]

/-- The problem at another place, with what is behind it. -/
def Diagnostic.move (f : Span → Span) (d : Diagnostic) : Diagnostic :=
  ⟨d.toNotice.move f, d.causes.map (·.move f)⟩

@[simp] theorem Diagnostic.move_id (d : Diagnostic) : d.move id = d := by
  simp [move]

end Quantity
