import Quantity.Proofs.Declaration.Products

/-!
# The grammar of declarations

What a text of declarations is, said without a reader: which tokens make up a declaration, and which
declaration they make up. Operators of one level group from the left, as `Chain` says; two levels of
it are numeral expressions, and one is dimension expressions. Nothing here bounds how deep signs and
parentheses go; `Expr.nesting` counts them.

Keywords are names like all others where none is expected, and so is every name after an at sign.
-/

namespace Quantity

/-- The most signs and parentheses that are open at a place of the expression. -/
def Expr.nesting : Expr → Nat
  | number _ _ | literal _ _ | magnitude _ _ | reference _ _ => 0
  | signed _ e | paren e => e.nesting + 1
  | arith _ l r => max l.nesting r.nesting

/-- No definition of the unit goes too deep. -/
def UnitDecl.IsShallow (d : UnitDecl) : Prop := ∀ e ∈ d.definitions, e.nesting ≤ maxNesting

/-- The offset of the scale does not go too deep. -/
def ScaleDecl.IsShallow (d : ScaleDecl) : Prop := d.offset.nesting ≤ maxNesting

namespace Declarations

def definitions (ds : Declarations) : List Expr := ds.units.flatMap (·.definitions)

/-- The definitions of units and the offsets of scales. -/
def expressions (ds : Declarations) : List Expr := ds.definitions ++ ds.scales.map (·.offset)

/-- No expression goes deeper. -/
def NestsWithin (depth : Nat) (ds : Declarations) : Prop := ∀ e ∈ ds.expressions, e.nesting ≤ depth

theorem nestsWithin_unit :
    NestsWithin depth { units := [u] } ↔ ∀ e ∈ u.definitions, e.nesting ≤ depth := by
  simp [NestsWithin, expressions, definitions]

theorem nestsWithin_scale : NestsWithin depth { scales := [d] } ↔ d.offset.nesting ≤ depth := by
  simp [NestsWithin, expressions, definitions]

end Declarations

namespace Grammar

/-! ### Names -/

def IsName (t : Token) : Prop := ∃ verbatim, t.kind = .identifier verbatim

/-- A name that stands for a constant: not after an at sign. -/
def IsConstant (t : Token) : Prop := t.kind = .identifier false ∧ isNamedConstant t.value = true

def IsReference (t : Token) : Prop := IsName t ∧ ¬ IsConstant t

/-! ### Expressions -/

/-- The signs of products. -/
inductive ProductSign : TokenKind → Arith → Prop
  | times : ProductSign .times .product
  | divide : ProductSign .divide .quotient

/-- The signs of sums. -/
inductive SumSign : TokenKind → Arith → Prop
  | plus : SumSign .plus .sum
  | minus : SumSign .minus .difference

/-- Operands joined by signs of one level, from left to right. -/
inductive Chain (sign : TokenKind → Arith → Prop) (operand : List Token → Expr → Prop) :
    List Token → Expr → Prop
  | single {ts : List Token} {e : Expr} : operand ts e → Chain sign operand ts e
  | join {ls rs : List Token} {t : Token} {op : Arith} {l r : Expr} :
    Chain sign operand ls l → sign t.kind op → operand rs r →
      Chain sign operand (ls ++ t :: rs) (.arith op l r)

/-- A term of a dimension expression. -/
inductive DimensionTerm : List Token → Expr → Prop
  | plain {o c : Token} : o.kind = .less → c.kind = .greater →
    DimensionTerm [o, c] (.magnitude none (o.span.upTo c.span))
  | magnitude {o name c : Token} {m : Magnitude} : o.kind = .less → IsName name →
    Magnitude.ofName? name.value = some m → c.kind = .greater →
      DimensionTerm [o, name, c] (.magnitude (some m) (o.span.upTo c.span))
  | number {t : Token} : t.kind = .number → DimensionTerm [t] (.number t.value t.span)
  | string {t : Token} : t.kind = .string → DimensionTerm [t] (.literal t.value t.span)
  | constant {t : Token} : IsConstant t → DimensionTerm [t] (.literal t.value t.span)
  | reference {t : Token} : IsReference t → DimensionTerm [t] (.reference t.value t.span)
  | group {o c : Token} {ts : List Token} {e : Expr} : o.kind = .openParen →
    Chain ProductSign DimensionTerm ts e → c.kind = .closeParen →
      DimensionTerm (o :: (ts ++ [c])) (.paren e)

/-- A dimension expression: a product of terms. -/
def DimensionPhrase : List Token → Expr → Prop := Chain ProductSign DimensionTerm

/-- A factor of a numeral expression. -/
inductive Factor : List Token → Expr → Prop
  | positive {t : Token} {ts : List Token} {e : Expr} : t.kind = .plus → Factor ts e →
    Factor (t :: ts) (.signed false e)
  | negative {t : Token} {ts : List Token} {e : Expr} : t.kind = .minus → Factor ts e →
    Factor (t :: ts) (.signed true e)
  | number {t : Token} : t.kind = .number → Factor [t] (.number t.value t.span)
  | string {t : Token} : t.kind = .string → Factor [t] (.literal t.value t.span)
  | constant {t : Token} : IsConstant t → Factor [t] (.literal t.value t.span)
  | ofUnit {t dot property : Token} : IsReference t → dot.kind = .dot → IsName property →
    property.value = "Factor" →
      Factor [t, dot, property] (.reference t.value (t.span.upTo property.span))
  | group {o c : Token} {ts : List Token} {e : Expr} : o.kind = .openParen →
    Chain SumSign (Chain ProductSign Factor) ts e → c.kind = .closeParen →
      Factor (o :: (ts ++ [c])) (.paren e)

/-- A numeral expression: a sum of products of factors. -/
def NumeralPhrase : List Token → Expr → Prop := Chain SumSign (Chain ProductSign Factor)

/-! ### Declarations -/

/-- The kind of numbers between angle brackets, or nothing. -/
inductive KindClause : List Token → Option NumericKind → Prop
  | absent : KindClause [] none
  | present {o word c : Token} {kind : NumericKind} : o.kind = .less → IsName word →
    word.value.toList.map Char.toLower = kind.keyword.toList → c.kind = .greater →
      KindClause [o, word, c] (some kind)

/-- Texts in quotes. -/
inductive Tags : List Token → List String → Prop
  | nil : Tags [] []
  | cons {t : Token} {ts : List Token} {tags : List String} : t.kind = .string → Tags ts tags →
    Tags (t :: ts) (t.value :: tags)

/-- A format after a colon, or nothing. -/
inductive FormatClause : List Token → Option String → Prop
  | absent : FormatClause [] none
  | present {colon t : Token} : colon.kind = .colon → t.kind = .string →
    FormatClause [colon, t] (some t.value)

/-- Further definitions, each after a bar. -/
inductive Alternatives : List Token → List Expr → Prop
  | nil : Alternatives [] []
  | cons {bar : Token} {ts us : List Token} {e : Expr} {es : List Expr} : bar.kind = .pipe →
    DimensionPhrase ts e → Alternatives us es → Alternatives (bar :: (ts ++ us)) (e :: es)

/-- The declaration of a unit. -/
inductive UnitDeclaration : List Token → UnitDecl → Prop
  | mk {start name equal stop : Token} {ks ts fs ds as : List Token} {kind : Option NumericKind}
    {tags : List String} {format : Option String} {definition : Expr} {alternatives : List Expr} :
    start.isKeyword .unit = true → KindClause ks kind → IsName name → Tags ts tags → tags ≠ [] →
    FormatClause fs format → equal.kind = .equal → DimensionPhrase ds definition →
    Alternatives as alternatives → stop.kind = .semicolon →
      UnitDeclaration (start :: (ks ++ name :: (ts ++ (fs ++ equal :: (ds ++ (as ++ [stop]))))))
        { name := name.value, span := start.span.upTo stop.span, kind, tags, format, definition,
          alternatives }

/-- The point of reference of a scale, or nothing. -/
inductive RefPoint : List Token → Option String → Prop
  | absent : RefPoint [] none
  | present {t : Token} : IsName t → RefPoint [t] (some t.value)

/-- An offset, the word "from" and a unit. -/
inductive OffsetFirst : List Token → Token × Expr → Prop
  | mk {ts : List Token} {e : Expr} {word unit : Token} : NumeralPhrase ts e →
    word.isKeyword .from = true → IsName unit → OffsetFirst (ts ++ [word, unit]) (unit, e)

/-- A unit and an offset. -/
inductive UnitFirst : List Token → Token × Expr → Prop
  | mk {ts : List Token} {e : Expr} {unit : Token} : IsReference unit → NumeralPhrase ts e →
    UnitFirst (unit :: ts) (unit, e)

/-- The unit and the offset of a scale, in one of two orders. -/
def ScaleBody (ts : List Token) (body : Token × Expr) : Prop :=
  OffsetFirst ts body ∨ UnitFirst ts body

/-- The declaration of a scale. -/
inductive ScaleDeclaration : List Token → ScaleDecl → Prop
  | mk {start name equal unit stop : Token} {fs rs bs : List Token} {format refPoint : Option String}
    {offset : Expr} :
    start.isKeyword .scale = true → IsName name → FormatClause fs format → RefPoint rs refPoint →
    equal.kind = .equal → ScaleBody bs (unit, offset) → stop.kind = .semicolon →
      ScaleDeclaration (start :: name :: (fs ++ (rs ++ equal :: (bs ++ [stop]))))
        { name := name.value, span := start.span.upTo stop.span, format, refPoint,
          unit := unit.value, unitSpan := unit.span, offset }

/-- One declaration, of a unit or of a scale. -/
inductive Declaration : List Token → Declarations → Prop
  | unit {ts : List Token} {u : UnitDecl} : UnitDeclaration ts u → Declaration ts { units := [u] }
  | scale {ts : List Token} {d : ScaleDecl} : ScaleDeclaration ts d →
    Declaration ts { scales := [d] }

/-- Declarations one after another, with semicolons between them, none of which goes too deep. -/
inductive File : List Token → Declarations → Prop
  | nil : File [] {}
  | semicolon {t : Token} {ts : List Token} {found : Declarations} : t.kind = .semicolon →
    File ts found → File (t :: ts) found
  | unit {us ts : List Token} {u : UnitDecl} {found : Declarations} : UnitDeclaration us u →
    u.IsShallow → File ts found → File (us ++ ts) { found with units := u :: found.units }
  | scale {ds ts : List Token} {d : ScaleDecl} {found : Declarations} : ScaleDeclaration ds d →
    d.IsShallow → File ts found → File (ds ++ ts) { found with scales := d :: found.scales }

/-- **The text declares this**: its tokens, but for blanks, comments and the mark of its end, are
declarations. -/
def Text (text : String) (found : Declarations) : Prop :=
  ∃ ts e, Token.significant text = ts ++ [e] ∧ e.kind = .eof ∧ File ts found

end Grammar

end Quantity
