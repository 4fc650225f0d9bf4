/-!
# Lines of source

Generated Rust source is put together from lines. A line is given without its line break. A
text from the definitions is set into a line as it stands.
-/

namespace Quantity.Source

/-- Lines without their line breaks. -/
abbrev Lines := List String

/-- A line one level further in; an empty line stays empty. -/
def indented (line : String) : String := if line.isEmpty then line else "    " ++ line

/-- A head and the lines that belong to it, in braces. -/
def block (head : String) (body : Lines) : Lines :=
  (head ++ " \x7b") :: body.map indented ++ ["\x7d"]

/-- An item on its own: an empty line goes before it. -/
def apart (item : Lines) : Lines := "" :: item

/-- The lines, or none. -/
def onlyIf (condition : Bool) (lines : Lines) : Lines := if condition then lines else []

/-- The text that the lines make up. -/
def text (lines : Lines) : String := String.join (lines.map (· ++ "\n"))

/-- Code within a comment. -/
def codeSpan (code : String) : String := "`" ++ code ++ "`"

/-! ### Items -/

/-- The operators that types of generated source implement. -/
inductive OperatorTrait where
  | add
  | sub
  | mul
  | div
  deriving DecidableEq, Repr

namespace OperatorTrait

/-- The name of the trait. -/
def name : OperatorTrait → String
  | add => "Add"
  | sub => "Sub"
  | mul => "Mul"
  | div => "Div"

/-- The method of the trait. -/
def method : OperatorTrait → String
  | add => "add"
  | sub => "sub"
  | mul => "mul"
  | div => "div"

/-- The symbol of the operator. -/
def symbol : OperatorTrait → String
  | add => "+"
  | sub => "-"
  | mul => "*"
  | div => "/"

end OperatorTrait

/-- The implementation of a binary operator. -/
structure OperatorImpl where
  operator : OperatorTrait
  /-- The type on the left. -/
  type : String
  /-- The type on the right, if it is another one. -/
  argument : Option String := none
  /-- The type of the result. -/
  output : String
  body : Lines
  deriving DecidableEq, Repr

/-- The lines of the implementation. -/
def OperatorImpl.lines (o : OperatorImpl) : Lines :=
  let parameter := match o.argument with
    | some a => "<" ++ a ++ ">"
    | none => ""
  block ("impl std::ops::" ++ o.operator.name ++ parameter ++ " for " ++ o.type)
    (["type Output = " ++ o.output ++ ";"]
      ++ apart (block
        ("fn " ++ o.operator.method ++ "(self, rhs: " ++ o.argument.getD "Self" ++ ") -> "
          ++ o.output)
        o.body))

/-- A conversion from one type to another. -/
structure Conversion where
  source : String
  target : String
  /-- The converted `value`. -/
  body : String
  deriving DecidableEq, Repr

/-- The lines of the conversion. -/
def Conversion.lines (c : Conversion) : Lines :=
  block ("impl From<" ++ c.source ++ "> for " ++ c.target)
    (block ("fn from(value: " ++ c.source ++ ") -> Self") [c.body])

/-- The text form of a type: the two places of its format are filled with the number and the
symbol. -/
def displayImpl (type symbol : String) : Lines :=
  block ("impl std::fmt::Display for " ++ type)
    (block "fn fmt(&self, f: &mut std::fmt::Formatter<'_>) -> std::fmt::Result"
      ["let text = Self::FORMAT",
        "    .replace(\"\x7b0\x7d\", &self.0.to_string())",
        "    .replace(\"\x7b1\x7d\", " ++ symbol ++ ");",
        "f.write_str(&text)"])

/-- A type that wraps a number gives it back and is made from it. -/
def wrapperMethods (num : String) : Lines :=
  block ("pub const fn new(value: " ++ num ++ ") -> Self") ["Self(value)"]
    ++ apart (block ("pub fn value(self) -> " ++ num) ["self.0"])

end Quantity.Source
