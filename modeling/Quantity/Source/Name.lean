import Quantity.Text.Words

/-!
# Names in source

Types carry the names of their units and scales, files carry the words of those names. A name
that is a reserved word of Rust is marked as a raw identifier.
-/

namespace Quantity.Source

/-- The reserved words of Rust. -/
def reservedWords : List String :=
  ["as", "async", "await", "break", "const", "continue", "dyn", "else", "enum", "extern",
    "false", "fn", "for", "if", "impl", "in", "let", "loop", "match", "mod", "move", "mut",
    "pub", "ref", "return", "static", "struct", "trait", "true", "type", "unsafe", "use",
    "where", "while", "abstract", "become", "box", "do", "final", "macro", "override", "priv",
    "try", "typeof", "unsized", "virtual", "yield"]

/-- A name as an identifier. -/
def identifier (name : String) : String :=
  if reservedWords.contains name then "r#" ++ name else name

/-- The name of the module of an entry. -/
def moduleName (name : String) : String := Text.snakeCase name

/-- A name of this module or another one. -/
def pathIn (module : Option String) (name : String) : String :=
  match module with
  | some m => m ++ "::" ++ identifier name
  | none => identifier name

end Quantity.Source
