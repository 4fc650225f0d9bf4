import Quantity.Dimension
import Quantity.Source.Config
import Quantity.Text.Quoted

/-!
# The source of the dimension type

Every generated module has a type of dimensions of its own, with a constant for each magnitude.
-/

namespace Quantity.Source

open Quantity.Text (quoted)

/-- How many magnitudes there are. -/
def magnitudeCount : String := toString Magnitude.all.length

/-- The constants of the type. -/
def dimensionConstants : Lines :=
  ["pub const NONE: Self = Self([0; " ++ magnitudeCount ++ "]);"]
    ++ Magnitude.all.map (fun m =>
      "pub const " ++ m.constantName ++ ": Self = Self::basic(" ++ toString m.index ++ ");")
    ++ apart ["const SYMBOLS: [&'static str; " ++ magnitudeCount ++ "] = ["
      ++ String.intercalate ", " (Magnitude.all.map fun m => quoted m.symbol) ++ "];"]

/-- The functions of the type. -/
def dimensionFunctions : Lines :=
  apart (block ("pub const fn new(exponents: [i8; " ++ magnitudeCount ++ "]) -> Self")
      ["Self(exponents)"])
    ++ apart (block "const fn basic(index: usize) -> Self"
      ["let mut exponents = [0; " ++ magnitudeCount ++ "];", "exponents[index] = 1;",
        "Self(exponents)"])
    ++ apart (block "pub fn is_dimensionless(&self) -> bool" ["self.0.iter().all(|e| *e == 0)"])

/-- An operator on dimensions that changes the exponents by those of the other side. -/
def dimensionOperator (operator : OperatorTrait) (assignment : String) : OperatorImpl :=
  { operator
    type := "Dimension"
    output := "Self"
    body := ["let mut exponents = self.0;"]
      ++ block "for (e, r) in exponents.iter_mut().zip(rhs.0)" ["*e " ++ assignment ++ " r;"]
      ++ ["Self(exponents)"] }

/-- The text form of a dimension. -/
def dimensionDisplay : Lines :=
  block "impl std::fmt::Display for Dimension"
    (block "fn fmt(&self, f: &mut std::fmt::Formatter<'_>) -> std::fmt::Result"
      ["let parts: Vec<String> = self",
        "    .0",
        "    .iter()",
        "    .zip(Self::SYMBOLS)",
        "    .filter(|(e, _)| **e != 0)",
        "    .map(|(e, s)| if *e == 1 \x7b s.to_string() \x7d else "
          ++ "\x7b format!(\"\x7b\x7d^\x7b\x7d\", s, e) \x7d)",
        "    .collect();",
        "write!(f, \"<\x7b\x7d>\", parts.join(\" \"))"])

/-- The lines of the file. -/
def dimensionFile (c : Config) : Lines :=
  ["//! Dimension vectors", ""]
    ++ onlyIf c.serde (c.serdeImport ++ [""])
    ++ onlyIf c.docs
      ["/// Exponents over " ++ String.intercalate ", " (Magnitude.all.map Magnitude.name)]
    ++ [c.deriveLine "Debug, Clone, Copy, PartialEq, Eq, Hash, Default",
      "pub struct Dimension(pub [i8; " ++ magnitudeCount ++ "]);"]
    ++ apart (block "impl Dimension" (dimensionConstants ++ dimensionFunctions))
    ++ apart (dimensionOperator .mul "+=").lines
    ++ apart (dimensionOperator .div "-=").lines
    ++ apart dimensionDisplay

end Quantity.Source
