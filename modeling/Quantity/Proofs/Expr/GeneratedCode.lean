import Quantity.Proofs.Declaration.Words
import Quantity.Proofs.Expr.Finite
import Quantity.Proofs.Expr.PostOrder
import Quantity.Proofs.Expr.Reader
import Quantity.Proofs.Number.Written

/-!
# What generated code means

The code that comes with a dimension or a value is put together from the codes of operands, and
parentheses are only kept where they were. The shape that the grammar gives to expressions makes up
for it: the code is read back as the expression that it was put together from, less operands without
dimension. So working it out gives the dimension (`Code.dimension_read`) or the value
(`Code.value_read`) that it comes with.
-/

namespace Quantity

open Number List
open Quantity.Expr (Level)

namespace Code

/-! ### Atoms -/

theorem isPlain_of (hp : [' ', '(', ')', '+', '-', '*', '/'].any p = false) (h : p c = true) :
    isPlain c = true := by
  rw [isPlain, Bool.not_eq_true', ← Bool.not_eq_true, contains_iff_mem]
  exact fun hmem => any_eq_false.mp hp c hmem h

theorem isPlain_of_isDigit (h : c.isDigit = true) : isPlain c = true :=
  isPlain_of (p := Char.isDigit) rfl h

theorem isPlain_of_isWord (h : IsWord s) : ∀ c ∈ s.toList, isPlain c = true :=
  fun c hc => isPlain_of (p := Lexeme.continuesName) (by decide +kernel) (h c hc)

theorem isAtom_of_all {s : String} (h : s.toList ≠ [] ∧ s.toList.all isPlain = true) :
    IsAtom s.toList :=
  .word h.1 (all_eq_true.mp h.2)

theorem isAtom_append (h : IsWord s) (hne : path.toList ≠ [])
    (hpath : path.toList.all isPlain = true) : IsAtom (s ++ path).toList := by
  refine isAtom_of_all ⟨by simp [hne], ?_⟩
  rw [String.toList_append, List.all_append, hpath, Bool.and_true]
  exact all_eq_true.mpr (isPlain_of_isWord h)

theorem Written.ofAtom (h : IsAtom s.toList) : Written .factor s.toList (.atom s) := by
  simpa using Written.atom h

/-! ### Dimensions -/

/-- What an atom stands for in the code of a dimension. -/
def atomDimension? (lookup : String → Lookup) (s : String) : Option Dimension :=
  let n := s.toList.length - "::DIMENSION".toList.length
  if s.toList.drop n = "::DIMENSION".toList then
    match lookup (String.ofList (s.toList.take n)) with
    | .resolved u => some u.dimension
    | _ => none
  else if s = "Dimension::NONE" then some .none
  else (Magnitude.all.find? fun m => s = "Dimension::" ++ m.constantName).map .basic

/-- **The dimension of an expression of code**, if there is one and no exponent overflows. -/
def Tree.dimension? (lookup : String → Lookup) : Tree String → Option Dimension
  | atom s => atomDimension? lookup s
  | binary .product l r => do
    let a ← l.dimension? lookup
    let b ← r.dimension? lookup
    (a.mul b).toOption
  | binary .quotient l r => do
    let a ← l.dimension? lookup
    let b ← r.dimension? lookup
    (a.div b).toOption
  | _ => none

section Dimensions

variable {lookup : String → Lookup}

theorem atomDimension?_unit {name : String} {u : UnitSummary} (h : lookup name = .resolved u) :
    atomDimension? lookup (name ++ "::DIMENSION") = some u.dimension := by
  unfold atomDimension?
  rw [String.toList_append]
  simp [h]

theorem atomDimension?_none : atomDimension? lookup "Dimension::NONE" = some .none := by
  unfold atomDimension?
  rw [if_neg (by decide +kernel), if_pos rfl]

theorem atomDimension?_magnitude (m : Magnitude) :
    atomDimension? lookup ("Dimension::" ++ m.constantName) = some (.basic m) := by
  have hfind : Magnitude.all.find? (fun k => "Dimension::" ++ m.constantName =
      "Dimension::" ++ k.constantName) = some m := by
    cases m <;> decide +kernel
  unfold atomDimension?
  rw [if_neg (by cases m <;> decide +kernel), if_neg (by cases m <;> decide +kernel), hfind]
  rfl

/-- **Dimensions come with code for them**, at each level of expressions. -/
theorem exists_written_of_hasDimension {e : Expr}
    (hlookup : ∀ name u, lookup name = .resolved u → u.name = name)
    (he : e.Shaped (Token.all text) False level) (h : e.HasDimension lookup d) :
    ∃ t, Written level d.code.toList t ∧ t.dimension? lookup = some d.value := by
  induction he generalizing d with
  | leaf he =>
    cases h with
    | number | literal | plain =>
      exact ⟨_, .ofAtom (isAtom_of_all (by decide +kernel)), atomDimension?_none⟩
    | @magnitude m =>
      exact ⟨_, .ofAtom (isAtom_of_all (by cases m <;> decide +kernel)),
        atomDimension?_magnitude m⟩
    | @reference name _ u hu =>
      rw [hlookup name u hu]
      exact ⟨_, .ofAtom (isAtom_append (Named.isWord he) (by decide +kernel) (by decide +kernel)),
        atomDimension?_unit hu⟩
    | _ => exact he.elim
  | signed hs | sum hs => exact hs.elim
  | paren _ ih =>
    cases h with
    | paren h =>
      obtain ⟨t, hwritten, ht⟩ := ih h
      exact ⟨t, hwritten.parenthesize, ht⟩
  | ofFactor _ ih =>
    obtain ⟨t, hwritten, ht⟩ := ih h
    exact ⟨t, .ofFactor hwritten, ht⟩
  | ofProduct _ ih =>
    obtain ⟨t, hwritten, ht⟩ := ih h
    exact ⟨t, .ofProduct hwritten, ht⟩
  | product _ _ _ ihl ihr =>
    cases h with
    | left _ hl _ _ => exact ihl hl
    | right _ hr _ =>
      obtain ⟨t, hwritten, ht⟩ := ihr hr
      exact ⟨t, .ofFactor hwritten, ht⟩
    | @product _ _ a b _ hl hr hv =>
      obtain ⟨t, hwritten, ht⟩ := ihl hl
      obtain ⟨t', hwritten', ht'⟩ := ihr hr
      refine ⟨.binary .product t t', ?_, by simp [Tree.dimension?, ht, ht', hv, Except.toOption]⟩
      simpa [Arith.symbol] using Written.product (.inl rfl) hwritten hwritten'
    | @quotient _ _ a b _ hl hr hv =>
      obtain ⟨t, hwritten, ht⟩ := ihl hl
      obtain ⟨t', hwritten', ht'⟩ := ihr hr
      refine ⟨.binary .quotient t t', ?_, by simp [Tree.dimension?, ht, ht', hv, Except.toOption]⟩
      simpa [Arith.symbol] using Written.product (.inr rfl) hwritten hwritten'

end Dimensions

/-! ### Literals -/

theorem isAtom_number (hwhole : IsWhole whole) (hfraction : IsFraction fraction)
    (hexponent : IsExponent exponent) (hsuffix : ∀ c ∈ suffix, isPlain c = true) :
    IsAtom (whole ++ fraction ++ exponent ++ suffix) := by
  have hdigits {ds : List Char} (h : IsDigits ds) : ∀ c ∈ ds, isPlain c = true :=
    fun c hc => isPlain_of_isDigit (h.2 c hc)
  have hfront : ∀ c ∈ whole ++ fraction, isPlain c = true := by
    rw [forall_mem_append]
    refine ⟨hdigits hwhole.1, ?_⟩
    cases hfraction with
    | nothing => simp
    | point h => exact forall_mem_cons.mpr ⟨rfl, hdigits h⟩
  have hne : whole ++ fraction ≠ [] := append_ne_nil_of_left_ne_nil hwhole.1.1 _
  cases hexponent with
  | nothing =>
    rw [append_nil]
    exact .word (append_ne_nil_of_left_ne_nil hne _)
      (forall_mem_append.mpr ⟨hfront, hsuffix⟩)
  | @mark sign ds hsign h =>
    have hpower : isPower (whole ++ fraction ++ ['e']) = true := by
      obtain ⟨c, cs, rfl⟩ := exists_cons_of_ne_nil hwhole.1.1
      have hc := hwhole.1.2 c (mem_cons_self ..)
      rw [isPower, getLast?_concat]
      simp [hc]
    have hmark : ∀ c ∈ whole ++ fraction ++ ['e'], isPlain c = true :=
      forall_mem_append.mpr ⟨hfront, by simp [isPlain]⟩
    have hback : ∀ c ∈ ds ++ suffix, isPlain c = true :=
      forall_mem_append.mpr ⟨hdigits h, hsuffix⟩
    rcases hsign with rfl | rfl | rfl
    · simpa using IsAtom.word (by simp) (forall_mem_append.mpr ⟨hmark, hback⟩)
    · simpa using IsAtom.power hpower hmark (.inr rfl) hback
    · simpa using IsAtom.power hpower hmark (.inl rfl) hback

/-- The literal of a number is an atom, or else it is negative and that of the number with the other
sign is one. -/
theorem isAtom_write (hb : b = .finite negative significand exponent wideBelow)
    (hb' : b' = .finite (!negative) significand exponent wideBelow)
    (hsuffix : ∀ c ∈ suffix.toList, isPlain c = true) :
    IsAtom (Layout.literal.write b ++ suffix).toList ∨
      IsAtom (Layout.literal.write b' ++ suffix).toList ∧ (Layout.literal.write b ++ suffix).toList =
        '-' :: (Layout.literal.write b' ++ suffix).toList := by
  subst hb hb'
  obtain ⟨whole, fraction, exponent', hwhole, hfraction, hexponent, heq⟩ :=
    Layout.literal.exists_magnitudeText fun x
        (hx : shortestDigits Layout.literal.tie significand exponent wideBelow = some x) =>
      digits_shortestDigits hx
  have hatom := isAtom_number hwhole hfraction hexponent hsuffix
  rw [← heq] at hatom
  cases negative with
  | false => exact .inl (by simpa [Layout.write] using hatom)
  | true => exact .inr ⟨by simpa [Layout.write] using hatom, by simp [Layout.write]⟩

theorem isAtom_decimalLiteral (d : Decimal) : IsAtom (Numeral.decimalLiteral d).toList := by
  unfold Numeral.decimalLiteral
  generalize d.words = words, (d.negative && !d.isZero) = negative, d.places = places
  obtain ⟨low, middle, high⟩ := words
  have hnone {c : Char} (hc : c.isDigit = false) (hmark : c ∉ ", truefalse".toList) :
      c ∉ (toString low ++ ", " ++ toString middle ++ ", " ++ toString high ++ ", "
        ++ (if negative then "true" else "false") ++ ", " ++ toString places).toList := by
    have hdigits := notMem_toString hc
    cases negative <;> simp_all
  have hcall (args : String) : ("Decimal::from_parts(" ++ args ++ ")").toList =
      "Decimal::from_parts".toList ++ '(' :: (args.toList ++ [')']) := by
    simp
  have hatom := IsAtom.call (by decide +kernel : "Decimal::from_parts".toList ≠ [])
    (all_eq_true.mp (by decide +kernel)) (hnone rfl (by decide +kernel))
    (hnone rfl (by decide +kernel))
  rw [← hcall] at hatom
  simpa only [String.append_assoc] using hatom

theorem isAtom_literal {n : Numeral} (h : n.isFinite = true) : IsAtom n.literal.toList ∨
    IsAtom n.neg.literal.toList ∧ n.literal.toList = '-' :: n.neg.literal.toList ∧
      n.neg.neg = n := by
  cases n with
  | double v =>
    obtain ⟨negative, significand, exponent, wideBelow, hv⟩ := Binary.isFinite_ofFloat h
    have hplain : ∀ c ∈ "f64".toList, isPlain c = true := all_eq_true.mp (by decide +kernel)
    refine (isAtom_write hv (Binary.ofFloat_neg h hv) hplain).imp_right ?_
    exact fun hatom => ⟨hatom.1, hatom.2, congrArg Numeral.double (float_neg_neg h)⟩
  | float v =>
    obtain ⟨negative, significand, exponent, wideBelow, hv⟩ := Binary.isFinite_ofFloat32 h
    have hplain : ∀ c ∈ "f32".toList, isPlain c = true := all_eq_true.mp (by decide +kernel)
    refine (isAtom_write hv (Binary.ofFloat32_neg h hv) hplain).imp_right ?_
    exact fun hatom => ⟨hatom.1, hatom.2, congrArg Numeral.float (float32_neg_neg h)⟩
  | decimal d => exact .inl (isAtom_decimalLiteral d)

/-! ### Values -/

/-- **The value of an expression of code**, worked out with checks. -/
def Tree.value : Tree (String × Numeral) → Except NumeralError Numeral
  | atom a => .ok a.2
  | neg t => do
    let n ← t.value
    return n.neg
  | binary op l r => do
    let a ← l.value
    let b ← r.value
    op.apply a b

end Code

/-- The atom in the code of a leaf, with its value: a minus sign is not part of it. -/
def NumeralExpr.atom (n : NumeralExpr) : String × Numeral :=
  if n.code.toList.head? = some '-' then (n.value.neg.literal, n.value.neg) else (n.code, n.value)

namespace Expr

/-- The atoms in the code of an expression, each with the value that it stands for. -/
def emitted (lookup : String → Lookup) (kind : NumericKind) : Expr → List (String × Numeral)
  | signed _ e | paren e => emitted lookup kind e
  | arith _ l r => emitted lookup kind l ++ emitted lookup kind r
  | e => (e.encodeValue lookup kind).toOption.toList.map NumeralExpr.atom

end Expr

namespace Code

/-- The expression of code was put together for a value. -/
structure Computes (level : Level) (n : NumeralExpr) (atoms : List (String × Numeral))
    (t : Tree (String × Numeral)) : Prop where
  written : Written level n.code.toList (t.map Prod.fst)
  atoms_eq : t.atoms = atoms
  value_eq : t.value = .ok n.value

section Values

variable {lookup : String → Lookup} {kind : NumericKind} {n : NumeralExpr}

theorem computes_atom (h : IsAtom n.code.toList) : ∃ t, Computes .factor n [n.atom] t := by
  obtain ⟨c, cs, heq, hc⟩ := h.head
  have hatom : n.atom = (n.code, n.value) := by
    rw [NumeralExpr.atom, heq, if_neg]
    rintro ⟨⟩
    cases hc
  rw [hatom]
  exact ⟨.atom (n.code, n.value), .ofAtom h, rfl, rfl⟩

theorem computes_literal (h : v.isFinite = true) :
    ∃ t, Computes .factor (.ofNumeral v) [(NumeralExpr.ofNumeral v).atom] t := by
  rcases isAtom_literal h with hatom | ⟨hatom, heq, hneg⟩
  · exact computes_atom hatom
  · have hsplit : (NumeralExpr.ofNumeral v).atom = (v.neg.literal, v.neg) := by
      rw [NumeralExpr.atom, if_pos]
      · rfl
      · exact congrArg List.head? heq
    rw [hsplit]
    refine ⟨.neg (.atom (v.neg.literal, v.neg)), ?_, rfl, congrArg Except.ok hneg⟩
    show Written .factor v.literal.toList _
    rw [heq]
    exact .neg (.ofAtom hatom)

theorem Computes.binary (hl : Computes level a as l) (hr : Computes level' b bs r)
    (hv : op.apply a.value b.value = .ok v)
    (hwritten : Written level''
      (a.code.toList ++ ' ' :: (op.symbol.toList ++ ' ' :: b.code.toList))
      (.binary op (l.map Prod.fst) (r.map Prod.fst))) :
    Computes level'' ⟨a.constant && b.constant, v, a.code ++ " " ++ op.symbol ++ " " ++ b.code⟩
      (as ++ bs) (.binary op l r) := by
  refine ⟨by simpa [Tree.map] using hwritten, ?_, ?_⟩
  · rw [Tree.atoms, hl.atoms_eq, hr.atoms_eq]
  · simp [Tree.value, hl.value_eq, hr.value_eq, hv, bind, Except.bind]

theorem computes_literalValue (hname : Expr.IsSymbolic kind name → IsIdentifier name) :
    ∃ t, Computes .factor (Expr.literalValue kind name) [(Expr.literalValue kind name).atom] t := by
  have hconstant (c : NamedConstant) : IsAtom (c.code kind).toList := by
    cases kind with
    | decimal => exact isAtom_decimalLiteral _
    | double | float => exact isAtom_of_all (by cases c <;> decide +kernel)
  unfold Expr.literalValue
  split
  · exact computes_atom (hconstant _)
  · exact computes_literal (NumericKind.isOf_of_parse ‹_›).2
  · obtain ⟨hhead, hword⟩ := hname ⟨‹_›, by simp [*]⟩
    refine computes_atom (.word ?_ (isPlain_of_isWord hword))
    intro hnil
    rw [hnil] at hhead
    cases hhead

/-- **Values come with code for them**, at each level of expressions. -/
theorem exists_computes {e : Expr} (hlookup : ∀ name u, lookup name = .resolved u → u.name = name)
    (he : e.Shaped (Token.all text) sums level)
    (hliterals : ∀ name ∈ e.literals, Expr.IsSymbolic kind name → IsIdentifier name)
    (h : e.HasValue lookup kind n) : ∃ t, Computes level n (e.emitted lookup kind) t := by
  induction he generalizing n with
  | leaf he =>
    cases h with
    | number hparse =>
      simpa [Expr.emitted, Expr.encodeValue, hparse, Except.toOption] using
        computes_literal (NumericKind.isOf_of_parse hparse).2
    | @literal name => exact computes_literalValue (hliterals name (mem_singleton_self _))
    | magnitude => exact computes_literal kind.isOf_one.2
    | @reference name _ u hu hkind =>
      have hatom : IsAtom (u.name ++ "::FACTOR").toList := by
        rw [hlookup name u hu]
        exact isAtom_append (Named.isWord he) (by decide +kernel) (by decide +kernel)
      simpa [Expr.emitted, Expr.encodeValue, hu, hkind, Lookup.resolve, bind, Except.bind, pure,
        Except.pure, Except.toOption] using
        @computes_atom ⟨u.constant, u.factor, u.name ++ "::FACTOR"⟩ hatom
    | _ => exact he.elim
  | signed _ _ ih =>
    cases h with
    | positive h => exact ih hliterals h
    | negative h =>
      obtain ⟨t, ht⟩ := ih hliterals h
      refine ⟨.neg t, ?_, ht.atoms_eq, ?_⟩
      · simpa [Tree.map] using Written.neg ht.written
      · simp [Tree.value, ht.value_eq, bind, Except.bind, pure, Except.pure]
  | paren _ ih =>
    cases h with
    | paren h =>
      obtain ⟨t, ht⟩ := ih hliterals h
      exact ⟨t, ht.written.parenthesize, ht.atoms_eq, ht.value_eq⟩
  | ofFactor _ ih =>
    obtain ⟨t, ht⟩ := ih hliterals h
    exact ⟨t, .ofFactor ht.written, ht.atoms_eq, ht.value_eq⟩
  | ofProduct _ ih =>
    obtain ⟨t, ht⟩ := ih hliterals h
    exact ⟨t, .ofProduct ht.written, ht.atoms_eq, ht.value_eq⟩
  | product hop _ _ ihl ihr =>
    obtain ⟨hl, hr⟩ := forall_mem_append.mp hliterals
    cases h with
    | arith ha hb hv =>
      obtain ⟨t, ht⟩ := ihl hl ha
      obtain ⟨t', ht'⟩ := ihr hr hb
      exact ⟨_, ht.binary ht' hv (.product hop ht.written ht'.written)⟩
  | sum _ hop _ _ ihl ihr =>
    obtain ⟨hl, hr⟩ := forall_mem_append.mp hliterals
    cases h with
    | arith ha hb hv =>
      obtain ⟨t, ht⟩ := ihl hl ha
      obtain ⟨t', ht'⟩ := ihr hr hb
      exact ⟨_, ht.binary ht' hv (.sum hop ht.written ht'.written)⟩

end Values

end Code

/-! ### Declarations -/

section Declarations

variable {source : Option String} {text : String} {e : Expr}

theorem Declarations.shaped_expression (h : e ∈ (read source text).1.expressions) :
    e.Shaped (Token.all text) True .sum := by
  rcases mem_append.mp h with h | h
  · exact .ofProduct (shaped_definition h)
  · obtain ⟨d, hd, rfl⟩ := mem_map.mp h
    obtain ⟨-, us, hus, hdecl⟩ := (read_grammatical source text).scales d hd
    exact hdecl.shaped.mono (List.Subset.trans hus fun _ => mem_of_mem_filter)

end Declarations

namespace Code

/-- **The code of a dimension means that dimension.** For the definitions of units in any text, and
units that are found under their own names. -/
theorem dimension_read {source : Option String} {text : String} {lookup : String → Lookup} {e : Expr}
    {d : DimensionExpr} (hlookup : ∀ name u, lookup name = .resolved u → u.name = name)
    (he : e ∈ (Declarations.read source text).1.definitions)
    (h : e.encodeDimension lookup = .ok d) :
    (read d.code).bind (Tree.dimension? lookup) = some d.value := by
  obtain ⟨t, hwritten, ht⟩ := exists_written_of_hasDimension hlookup
    (Declarations.shaped_definition he) (Expr.hasDimension_of_encodeDimension h)
  rw [read_of_written (.ofProduct hwritten)]
  exact ht

/-- Accelerations, and heights by a gauge. -/
def accelerations : String :=
  "unit Acceleration \"a\" = 2 * Meter / (Second * Second);
   scale Height = 1 - -\"gauge\" * (2 + 3) from Meter;"

def metersAndSeconds : String → Lookup
  | "Meter" => .resolved ⟨"Meter", .decimal, .basic .length, NumericKind.one .decimal, true⟩
  | "Second" => .resolved ⟨"Second", .decimal, .basic .time, NumericKind.one .decimal, true⟩
  | _ => .unknown

theorem name_of_metersAndSeconds (name : String) (u : UnitSummary)
    (h : metersAndSeconds name = .resolved u) : u.name = name := by
  unfold metersAndSeconds at h
  split at h <;> cases h <;> rfl

/-- The parentheses around seconds are kept. -/
theorem dimension_read_accelerations : ∃ e d,
    e ∈ (Declarations.read none accelerations).1.definitions ∧
      e.encodeDimension metersAndSeconds = .ok d ∧
      d.code = "Meter::DIMENSION / (Second::DIMENSION * Second::DIMENSION)" ∧
      (read d.code).bind (Tree.dimension? metersAndSeconds) = some d.value := by
  obtain ⟨e, he, d, hd, hcode⟩ : ∃ e ∈ (Declarations.read none accelerations).1.definitions,
      ∃ d, e.encodeDimension metersAndSeconds = .ok d ∧
        d.code = "Meter::DIMENSION / (Second::DIMENSION * Second::DIMENSION)" := by
    decide +kernel
  exact ⟨e, d, he, hd, hcode, dimension_read name_of_metersAndSeconds he hd⟩

/-- **The code of a value means that value.** For the definitions of units and the offsets of scales
in any text, if literals that are just names are identifiers, and for units that are found under
their own names: the code is read as an expression of the atoms that were emitted, and with their
values it gives the value. -/
theorem value_read {source : Option String} {text : String} {lookup : String → Lookup} {e : Expr}
    {kind : NumericKind} {n : NumeralExpr}
    (hlookup : ∀ name u, lookup name = .resolved u → u.name = name)
    (he : e ∈ (Declarations.read source text).1.expressions)
    (hliterals : ∀ name ∈ e.literals, Expr.IsSymbolic kind name → IsIdentifier name)
    (h : e.encodeValue lookup kind = .ok n) :
    ∃ t : Tree (String × Numeral), read n.code = some (t.map Prod.fst) ∧
      t.atoms = e.emitted lookup kind ∧ t.value = .ok n.value := by
  obtain ⟨t, ht⟩ := exists_computes hlookup (Declarations.shaped_expression he) hliterals
    (Expr.hasValue_of_encodeValue h)
  exact ⟨t, read_of_written ht.written, ht.atoms_eq, ht.value_eq⟩

/-- The gauge is taken for one, and its sign goes before the product. -/
theorem value_read_accelerations : ∃ e n,
    e ∈ (Declarations.read none accelerations).1.expressions ∧
      e.encodeValue metersAndSeconds .decimal = .ok n ∧ e.literals = ["gauge"] ∧
      IsIdentifier "gauge" ∧ n.value.text = "6" ∧
      ∃ t : Tree (String × Numeral), read n.code = some (t.map Prod.fst) ∧
        t.atoms = e.emitted metersAndSeconds .decimal ∧ t.value = .ok n.value := by
  have hgauge : IsIdentifier "gauge" :=
    ⟨by decide +kernel, all_eq_true.mp (by decide +kernel)⟩
  obtain ⟨e, he, n, hn, hliterals, htext⟩ : ∃ e ∈ (Declarations.read none accelerations).1.expressions,
      ∃ n, e.encodeValue metersAndSeconds .decimal = .ok n ∧ e.literals = ["gauge"] ∧
        n.value.text = "6" := by
    decide +kernel
  have hplain : ∀ name ∈ e.literals, Expr.IsSymbolic .decimal name → IsIdentifier name := by
    intro name hname _
    rw [hliterals] at hname
    rwa [mem_singleton.mp hname]
  exact ⟨e, n, he, hn, hliterals, hgauge, htext,
    value_read name_of_metersAndSeconds he hplain hn⟩

end Code

end Quantity
