/-!
# Code of expressions

The value of an expression comes with an expression of generated source that computes it.
Parentheses are kept in the code, but never doubled.
-/

namespace Quantity.Code

/-- Whether a text, read from inside `depth` parentheses on, ends with the parenthesis that
closes the first one and has nothing but blanks outside of it. The depth is an integer
without bounds; 32 bits are enough for texts of less than 2 GiB. -/
def isGroup (depth : Int) : List Char → Bool
  | [] => true
  | '(' :: cs => isGroup (depth + 1) cs
  | ')' :: cs => if depth = 1 && !cs.isEmpty then false else isGroup (depth - 1) cs
  | ' ' :: cs => isGroup depth cs
  | _ :: cs => if depth = 0 then false else isGroup depth cs

def parenthesize (code : String) : String :=
  if isGroup 0 code.toList then code else "(" ++ code ++ ")"

end Quantity.Code
