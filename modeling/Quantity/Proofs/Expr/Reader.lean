import Quantity.Expr.Code
import Quantity.Proofs.Declaration.Grammatical

/-!
# Reading generated code

Generated code is an expression of names, numbers and calls. `Code.read` reads it the usual way: a
minus sign in front of an operand binds most tightly, then `*` and `/` from left to right, then `+` and
`-` from left to right, and parentheses group. It keeps one frame for each parenthesis that is open,
with what waits there for an operand.

`Written` says which texts code is put together from. Such a text is read as it was written
(`read_of_written`), and stays so in parentheses, which are never doubled (`Written.parenthesize`).
-/

namespace Quantity.Code

open Quantity.Expr (Level)
open List

/-! ### Expressions of code -/

/-- An expression of generated code. -/
inductive Tree (α : Type) where
  | atom (a : α)
  | neg (t : Tree α)
  | binary (op : Arith) (l r : Tree α)

namespace Tree

variable {α β : Type}

/-- The same expression with other atoms. -/
def map (f : α → β) : Tree α → Tree β
  | atom a => atom (f a)
  | neg t => neg (t.map f)
  | binary op l r => binary op (l.map f) (r.map f)

def atoms : Tree α → List α
  | atom a => [a]
  | neg t => t.atoms
  | binary _ l r => l.atoms ++ r.atoms

end Tree

/-! ### Parts -/

/-- A part of code. -/
inductive Part where
  | atom (text : String)
  | sign (op : Arith)
  | opening
  | closing

/-- Whether a character always belongs to an atom. -/
def isPlain (c : Char) : Bool := !([' ', '(', ')', '+', '-', '*', '/'].contains c)

def operator? (c : Char) : Option Arith :=
  [Arith.product, .quotient, .sum, .difference].find? fun op => op.symbol = String.singleton c

/-- Whether a sign goes on with a word: it is that of an exponent. -/
def isPower (word : List Char) : Bool := word.head?.any Char.isDigit && word.getLast? = some 'e'

def endWord (word : List Char) (parts : List Part) : List Part :=
  if word.isEmpty then parts else .atom (String.ofList word) :: parts

/-- The parts of a text, from inside of a word and of `depth` parentheses of a call on. -/
def parts (depth : Nat) (word : List Char) : List Char → List Part
  | [] => endWord word []
  | c :: cs =>
    if 0 < depth then
      parts (if c = '(' then depth + 1 else if c = ')' then depth - 1 else depth) (word ++ [c]) cs
    else if isPlain c || (c = '-' || c = '+') && isPower word then parts 0 (word ++ [c]) cs
    else if c = '(' then
      if word.isEmpty then .opening :: parts 0 [] cs else parts 1 (word ++ [c]) cs
    else if c = ')' then endWord word (.closing :: parts 0 [] cs)
    else match operator? c with
      | some op => endWord word (.sign op :: parts 0 [] cs)
      | none => endWord word (parts 0 [] cs)

/-! ### Reading -/

/-- What waits for an operand: the left side of a sum, the left side of a product, and signs. -/
structure Frame where
  sum : Option (Tree String × Arith) := none
  product : Option (Tree String × Arith) := none
  signs : Nat := 0

def join (left : Option (Tree String × Arith)) (t : Tree String) : Tree String :=
  match left with
  | none => t
  | some (l, op) => .binary op l t

def negate : (signs : Nat) → Tree String → Tree String
  | 0, t => t
  | signs + 1, t => negate signs (.neg t)

/-- Give an operand to the signs and the product that wait for it. -/
def Frame.operand (f : Frame) (t : Tree String) : Tree String := join f.product (negate f.signs t)

/-- Read parts, before or after an operand, with the innermost frame and those around it. -/
def run : List Part → Option (Tree String) → Frame → List Frame → Option (Tree String)
  | [], some t, f, [] => some (join f.sum t)
  | .atom a :: ps, none, f, stack => run ps (some (f.operand (.atom a))) ⟨f.sum, none, 0⟩ stack
  | .opening :: ps, none, f, stack => run ps none {} (f :: stack)
  | .closing :: ps, some t, f, g :: stack =>
    run ps (some (g.operand (join f.sum t))) ⟨g.sum, none, 0⟩ stack
  | .sign .difference :: ps, none, f, stack => run ps none { f with signs := f.signs + 1 } stack
  | .sign .product :: ps, some t, f, stack => run ps none ⟨f.sum, some (t, .product), 0⟩ stack
  | .sign .quotient :: ps, some t, f, stack => run ps none ⟨f.sum, some (t, .quotient), 0⟩ stack
  | .sign .sum :: ps, some t, f, stack => run ps none ⟨some (join f.sum t, .sum), none, 0⟩ stack
  | .sign .difference :: ps, some t, f, stack =>
    run ps none ⟨some (join f.sum t, .difference), none, 0⟩ stack
  | _, _, _, _ => none

/-- **Read code**, if it is an expression. -/
def read (code : String) : Option (Tree String) := run (parts 0 [] code.toList) none {} []

/-! ### Writing -/

/-- A name, a number with a sign in its exponent, or a call. -/
inductive IsAtom : List Char → Prop
  | word {cs : List Char} : cs ≠ [] → (∀ c ∈ cs, isPlain c = true) → IsAtom cs
  | power {cs ds : List Char} {sign : Char} : isPower cs = true → (∀ c ∈ cs, isPlain c = true) →
    sign = '-' ∨ sign = '+' → (∀ c ∈ ds, isPlain c = true) → IsAtom (cs ++ sign :: ds)
  | call {cs args : List Char} : cs ≠ [] → (∀ c ∈ cs, isPlain c = true) → '(' ∉ args → ')' ∉ args →
    IsAtom (cs ++ '(' :: (args ++ [')']))

/-- **The text of an expression** of a level. -/
inductive Written : Level → List Char → Tree String → Prop
  | atom {cs : List Char} : IsAtom cs → Written .factor cs (.atom (String.ofList cs))
  | neg {cs : List Char} {t : Tree String} : Written .factor cs t →
    Written .factor ('-' :: cs) (.neg t)
  | group {cs : List Char} {t : Tree String} : Written .sum cs t →
    Written .factor ('(' :: (cs ++ [')'])) t
  | ofFactor {cs : List Char} {t : Tree String} : Written .factor cs t → Written .product cs t
  | product {op : Arith} {ls rs : List Char} {l r : Tree String} :
    op = .product ∨ op = .quotient → Written .product ls l → Written .factor rs r →
      Written .product (ls ++ ' ' :: (op.symbol.toList ++ ' ' :: rs)) (.binary op l r)
  | ofProduct {cs : List Char} {t : Tree String} : Written .product cs t → Written .sum cs t
  | sum {op : Arith} {ls rs : List Char} {l r : Tree String} :
    op = .sum ∨ op = .difference → Written .sum ls l → Written .product rs r →
      Written .sum (ls ++ ' ' :: (op.symbol.toList ++ ' ' :: rs)) (.binary op l r)

section Parts

variable {cs rest word : List Char}

def Stops : List Char → Prop
  | [] | ' ' :: _ | ')' :: _ => True
  | _ => False

theorem parts_plain (h : ∀ c ∈ cs, isPlain c = true) (word rest : List Char) :
    parts 0 word (cs ++ rest) = parts 0 (word ++ cs) rest := by
  induction cs generalizing word with
  | nil => simp
  | cons c cs ih =>
    obtain ⟨hc, hcs⟩ := forall_mem_cons.mp h
    rw [cons_append, parts, if_neg (Nat.lt_irrefl 0), if_pos (by rw [hc]; rfl), ih hcs]
    simp

theorem parts_args (hopen : '(' ∉ cs) (hclose : ')' ∉ cs) (word rest : List Char) :
    parts 1 word (cs ++ rest) = parts 1 (word ++ cs) rest := by
  induction cs generalizing word with
  | nil => simp
  | cons c cs ih =>
    rw [mem_cons, not_or] at hopen hclose
    rw [cons_append, parts, if_neg (Ne.symm hopen.1),
      if_neg (Ne.symm hclose.1), ih hopen.2 hclose.2]
    simp

theorem parts_stop (hword : word ≠ []) (hrest : Stops rest) :
    parts 0 word rest = .atom (String.ofList word) :: parts 0 [] rest := by
  have hend (ps : List Part) : endWord word ps = .atom (String.ofList word) :: ps := by
    rw [endWord, if_neg (by simpa using hword)]
  unfold Stops at hrest
  split at hrest
  · exact hend []
  · exact hend _
  · exact hend _
  · exact hrest.elim

theorem parts_atom (h : IsAtom cs) (hrest : Stops rest) :
    parts 0 [] (cs ++ rest) = .atom (String.ofList cs) :: parts 0 [] rest := by
  cases h with
  | word hne hplain => rw [parts_plain hplain, nil_append, parts_stop hne hrest]
  | @power cs ds sign hpower hplain hsign hplain' =>
    have hstep : parts 0 cs (sign :: (ds ++ rest)) = parts 0 (cs ++ [sign]) (ds ++ rest) := by
      have hgoes : (isPlain sign || (sign = '-' || sign = '+') && isPower cs) = true := by
        rcases hsign with rfl | rfl <;> simp [hpower]
      rw [parts, if_neg (Nat.lt_irrefl 0), if_pos hgoes]
    rw [List.append_assoc, cons_append, parts_plain hplain, nil_append, hstep,
      parts_plain hplain', parts_stop (by simp) hrest]
    simp
  | @call cs args hne hplain hopen hclose =>
    have hstep : parts 0 cs ('(' :: (args ++ ')' :: rest)) =
        parts 1 (cs ++ ['(']) (args ++ ')' :: rest) := by
      rw [parts, if_neg (Nat.lt_irrefl 0), if_neg (by simp [isPlain]), if_pos rfl,
        if_neg (by simpa using hne)]
    have hlast (word : List Char) : parts 1 word (')' :: rest) = parts 0 (word ++ [')']) rest := rfl
    simp only [List.append_assoc, cons_append, nil_append]
    rw [parts_plain hplain, nil_append, hstep, parts_args hopen hclose, hlast,
      parts_stop (by simp) hrest]
    simp

theorem parts_symbol (op : Arith) (cs : List Char) :
    parts 0 [] (' ' :: (op.symbol.toList ++ ' ' :: cs)) = .sign op :: parts 0 [] cs := by
  cases op <;> rfl

end Parts

/-! ### Round trip -/

/-- What reading a text comes down to, for each level of expression and whatever follows. -/
def Reads : Level → List Char → Tree String → Prop
  | .factor, cs, t => ∀ f stack rest, Stops rest → run (parts 0 [] (cs ++ rest)) none f stack =
      run (parts 0 [] rest) (some (f.operand t)) ⟨f.sum, none, 0⟩ stack
  | .product, cs, t => ∀ left stack rest, Stops rest →
      run (parts 0 [] (cs ++ rest)) none ⟨left, none, 0⟩ stack =
        run (parts 0 [] rest) (some t) ⟨left, none, 0⟩ stack
  | .sum, cs, t => ∀ stack rest, Stops rest → ∃ left t', join left t' = t ∧
      run (parts 0 [] (cs ++ rest)) none {} stack =
        run (parts 0 [] rest) (some t') ⟨left, none, 0⟩ stack

/-- **Code is read as it was written**, whatever waits for it and whatever follows. -/
theorem Written.reads (h : Written level cs t) : Reads level cs t := by
  induction h with
  | atom h =>
    intro f stack rest hrest
    rw [parts_atom h hrest]
    rfl
  | neg _ ih =>
    intro f stack rest hrest
    exact ih { f with signs := f.signs + 1 } stack rest hrest
  | @group cs t _ ih =>
    intro f stack rest _
    obtain ⟨left, t', rfl, hrun⟩ := ih (f :: stack) (')' :: rest) trivial
    simp only [List.append_assoc, cons_append]
    exact hrun
  | ofFactor _ ih =>
    intro left stack rest hrest
    exact ih ⟨left, none, 0⟩ stack rest hrest
  | @product op ls rs l r hop _ _ ihl ihr =>
    intro left stack rest hrest
    have hl := ihl left stack (' ' :: (op.symbol.toList ++ ' ' :: (rs ++ rest))) trivial
    have hstep (ps : List Part) : run (.sign op :: ps) (some l) ⟨left, none, 0⟩ stack =
        run ps none ⟨left, some (l, op), 0⟩ stack := by
      rcases hop with rfl | rfl <;> rfl
    simp only [List.append_assoc, cons_append]
    rw [hl, parts_symbol, hstep]
    exact ihr ⟨left, some (l, op), 0⟩ stack rest hrest
  | ofProduct _ ih =>
    intro stack rest hrest
    exact ⟨none, _, rfl, ih none stack rest hrest⟩
  | @sum op ls rs l r hop _ _ ihl ihr =>
    intro stack rest hrest
    obtain ⟨left, t', rfl, hl⟩ :=
      ihl stack (' ' :: (op.symbol.toList ++ ' ' :: (rs ++ rest))) trivial
    have hstep (ps : List Part) : run (.sign op :: ps) (some t') ⟨left, none, 0⟩ stack =
        run ps none ⟨some (join left t', op), none, 0⟩ stack := by
      rcases hop with rfl | rfl <;> rfl
    refine ⟨some (join left t', op), r, rfl, ?_⟩
    simp only [List.append_assoc, cons_append]
    rw [hl, parts_symbol, hstep]
    exact ihr _ stack rest hrest

theorem read_of_written (h : Written .sum code.toList t) : read code = some t := by
  obtain ⟨left, t', rfl, hrun⟩ := h.reads [] [] trivial
  rw [append_nil] at hrun
  exact hrun

/-! ### Parentheses -/

section Parentheses

variable {cs : List Char} {c : Char} {d : Int} {level : Level} {t : Tree String}

theorem isGroup_cons (hopen : c ≠ '(') (hclose : c ≠ ')') (hd : 1 ≤ d) (rest : List Char) :
    isGroup d (c :: rest) = isGroup d rest := by
  rw [isGroup.eq_def]
  split <;> simp_all
  omega

/-- Inside of parentheses, text without others makes no difference. -/
theorem isGroup_append (hopen : '(' ∉ cs) (hclose : ')' ∉ cs) (hd : 1 ≤ d) (rest : List Char) :
    isGroup d (cs ++ rest) = isGroup d rest := by
  induction cs with
  | nil => rfl
  | cons c cs ih =>
    rw [mem_cons, not_or] at hopen hclose
    rw [cons_append, isGroup_cons (Ne.symm hopen.1) (Ne.symm hclose.1) hd,
      ih hopen.2 hclose.2]

theorem isGroup_parentheses (hd : 1 ≤ d) (rest : List Char)
    (h : isGroup (d + 1) (cs ++ ')' :: rest) = isGroup (d + 1) (')' :: rest)) :
    isGroup d ('(' :: (cs ++ ')' :: rest)) = isGroup d rest := by
  have hne : ¬ d + 1 = 1 := by omega
  rw [isGroup, h, isGroup]
  simp [hne]

theorem notMem_of_plain (h : ∀ c ∈ cs, isPlain c = true) (hc : isPlain c = false) : c ∉ cs := by
  intro hmem
  rw [h c hmem] at hc
  cases hc

theorem IsAtom.isGroup_append (h : IsAtom cs) (hd : 1 ≤ d) (rest : List Char) :
    isGroup d (cs ++ rest) = isGroup d rest := by
  cases h with
  | word _ hplain =>
    exact Code.isGroup_append (notMem_of_plain hplain rfl) (notMem_of_plain hplain rfl) hd rest
  | @power cs ds sign _ hplain hsign hplain' =>
    have hnone {x : Char} (hx : isPlain x = false) (hne : x ≠ '-' ∧ x ≠ '+') :
        x ∉ cs ++ sign :: ds := by
      rcases hsign with rfl | rfl <;>
        simp [notMem_of_plain hplain hx, notMem_of_plain hplain' hx, hne]
    exact Code.isGroup_append (hnone rfl (by decide)) (hnone rfl (by decide)) hd rest
  | @call cs args _ hplain hopen hclose =>
    simp only [List.append_assoc, cons_append]
    rw [Code.isGroup_append (notMem_of_plain hplain rfl) (notMem_of_plain hplain rfl) hd]
    exact isGroup_parentheses hd rest (Code.isGroup_append hopen hclose (by omega) _)

/-- Inside of parentheses, code makes no difference: its own parentheses match. -/
theorem Written.isGroup_append (h : Written level cs t) (hd : 1 ≤ d) (rest : List Char) :
    isGroup d (cs ++ rest) = isGroup d rest := by
  induction h generalizing d rest with
  | atom h => exact h.isGroup_append hd rest
  | neg _ ih =>
    rw [cons_append, isGroup_cons (by decide) (by decide) hd, ih hd]
  | @group cs _ _ ih =>
    simp only [List.append_assoc, cons_append]
    exact isGroup_parentheses hd rest (ih (by omega) _)
  | ofFactor _ ih | ofProduct _ ih => exact ih hd rest
  | @product op ls rs _ _ _ _ _ ihl ihr | @sum op ls rs _ _ _ _ _ ihl ihr =>
    have hsign : isGroup d (' ' :: (op.symbol.toList ++ ' ' :: (rs ++ rest))) =
        isGroup d (rs ++ rest) := by
      have hopen : '(' ∉ ' ' :: (op.symbol.toList ++ [' ']) := by cases op <;> decide
      have hclose : ')' ∉ ' ' :: (op.symbol.toList ++ [' ']) := by cases op <;> decide
      simpa using Code.isGroup_append hopen hclose hd (rs ++ rest)
    simp only [List.append_assoc, cons_append]
    rw [ihl hd, hsign, ihr hd]

theorem IsAtom.head (h : IsAtom cs) : ∃ c cs', cs = c :: cs' ∧ isPlain c = true := by
  have hword {cs : List Char} (hne : cs ≠ []) (hplain : ∀ c ∈ cs, isPlain c = true) :
      ∃ c cs', cs = c :: cs' ∧ isPlain c = true := by
    obtain ⟨c, cs', rfl⟩ := exists_cons_of_ne_nil hne
    exact ⟨c, cs', rfl, hplain c (mem_cons_self ..)⟩
  cases h with
  | word hne hplain => exact hword hne hplain
  | power hpower hplain _ _ =>
    obtain ⟨c, cs', rfl, hc⟩ := hword (by rintro rfl; cases hpower) hplain
    exact ⟨c, _, rfl, hc⟩
  | call hne hplain _ _ =>
    obtain ⟨c, cs', rfl, hc⟩ := hword hne hplain
    exact ⟨c, _, rfl, hc⟩

theorem Written.isGroup_concat (h : Written level cs t) (c : Char) (rest : List Char) :
    isGroup 0 (cs ++ c :: rest) = false := by
  induction h generalizing c rest with
  | atom h =>
    obtain ⟨x, cs', rfl, hx⟩ := h.head
    rw [isGroup.eq_def]
    split <;> simp_all [isPlain]
  | neg => rfl
  | @group cs t h _ =>
    simp only [List.append_assoc, cons_append]
    rw [isGroup, h.isGroup_append (by omega)]
    rfl
  | ofFactor _ ih | ofProduct _ ih => exact ih c rest
  | product _ _ _ ihl _ | sum _ _ _ ihl _ =>
    rw [List.append_assoc]
    exact ihl _ _

theorem Written.factor_or (h : Written level cs t) :
    Written .factor cs t ∨ isGroup 0 cs = false := by
  induction h with
  | atom h => exact .inl (.atom h)
  | neg h _ => exact .inl (.neg h)
  | group h _ => exact .inl (.group h)
  | ofFactor _ ih | ofProduct _ ih => exact ih
  | product _ hl _ _ _ | sum _ hl _ _ _ => exact .inr (hl.isGroup_concat _ _)

/-- **Code in parentheses is a factor**, also where they are left out because it has some. -/
theorem Written.parenthesize (h : Written .sum code.toList t) :
    Written .factor (parenthesize code).toList t := by
  unfold Code.parenthesize
  rcases h.factor_or with hfactor | hnone
  · split_ifs
    · exact hfactor
    · simpa using Written.group h
  · rw [hnone]
    simpa using Written.group h

end Parentheses

end Quantity.Code
