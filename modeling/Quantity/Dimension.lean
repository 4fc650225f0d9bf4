/-!
# Magnitudes and dimensions

A dimension is an exponent for each of nine base magnitudes. Multiplying quantities adds
their dimensions and dividing subtracts them. Exponents are small: a result with an exponent
outside `-128 … 127` is refused and the first such magnitude is named.
-/

namespace Quantity

/-- The base magnitudes, in the order of a dimension's slots. -/
inductive Magnitude where
  | length
  | time
  | mass
  | temperature
  | electricCurrent
  | amountOfSubstance
  | luminousIntensity
  | money
  | other
  deriving DecidableEq, Repr

namespace Magnitude

def all : List Magnitude :=
  [length, time, mass, temperature, electricCurrent, amountOfSubstance, luminousIntensity,
    money, other]

def index : Magnitude → Nat
  | length => 0
  | time => 1
  | mass => 2
  | temperature => 3
  | electricCurrent => 4
  | amountOfSubstance => 5
  | luminousIntensity => 6
  | money => 7
  | other => 8

def name : Magnitude → String
  | length => "Length"
  | time => "Time"
  | mass => "Mass"
  | temperature => "Temperature"
  | electricCurrent => "ElectricCurrent"
  | amountOfSubstance => "AmountOfSubstance"
  | luminousIntensity => "LuminousIntensity"
  | money => "Money"
  | other => "Other"

def symbol : Magnitude → String
  | length => "L"
  | time => "T"
  | mass => "M"
  | temperature => "K"
  | electricCurrent => "I"
  | amountOfSubstance => "N"
  | luminousIntensity => "J"
  | money => "Money"
  | other => "X"

/-- The name of the magnitude's dimension in generated source. -/
def constantName : Magnitude → String
  | length => "LENGTH"
  | time => "TIME"
  | mass => "MASS"
  | temperature => "TEMPERATURE"
  | electricCurrent => "ELECTRIC_CURRENT"
  | amountOfSubstance => "AMOUNT_OF_SUBSTANCE"
  | luminousIntensity => "LUMINOUS_INTENSITY"
  | money => "MONEY"
  | other => "OTHER"

/-- The names under which definitions may mention the magnitude. -/
def acceptedNames : Magnitude → List String
  | length => ["Length", "L"]
  | time => ["Time", "T"]
  | mass => ["Mass", "M"]
  | temperature => ["Temperature", "Θ", "K"]
  | electricCurrent => ["ElectricCurrent", "I"]
  | amountOfSubstance => ["AmountOfSubstance", "N"]
  | luminousIntensity => ["LuminousIntensity", "J"]
  | money => ["Money", "Currency"]
  | other => ["Other", "X"]

def ofName? (name : String) : Option Magnitude :=
  all.find? fun m => m.acceptedNames.contains name

end Magnitude

/-- A dimension that does not fit: the magnitude whose exponent is out of range. -/
inductive DimensionError where
  | overflow (magnitude : Magnitude)
  deriving DecidableEq, Repr

def DimensionError.message : DimensionError → String
  | overflow m => "Dimension overflow: exponent of " ++ m.name ++ " is out of range"

/-- An exponent for every magnitude. -/
structure Dimension where
  length : Int8 := 0
  time : Int8 := 0
  mass : Int8 := 0
  temperature : Int8 := 0
  electricCurrent : Int8 := 0
  amountOfSubstance : Int8 := 0
  luminousIntensity : Int8 := 0
  money : Int8 := 0
  other : Int8 := 0
  deriving DecidableEq, Repr, Inhabited

namespace Dimension

def none : Dimension := {}

def get (d : Dimension) : Magnitude → Int8
  | .length => d.length
  | .time => d.time
  | .mass => d.mass
  | .temperature => d.temperature
  | .electricCurrent => d.electricCurrent
  | .amountOfSubstance => d.amountOfSubstance
  | .luminousIntensity => d.luminousIntensity
  | .money => d.money
  | .other => d.other

def ofFun (f : Magnitude → Int8) : Dimension :=
  { length := f .length
    time := f .time
    mass := f .mass
    temperature := f .temperature
    electricCurrent := f .electricCurrent
    amountOfSubstance := f .amountOfSubstance
    luminousIntensity := f .luminousIntensity
    money := f .money
    other := f .other }

@[simp] theorem get_ofFun (f : Magnitude → Int8) (m : Magnitude) : (ofFun f).get m = f m := by
  cases m <;> rfl

@[ext] theorem ext_get {a b : Dimension} (h : ∀ m, a.get m = b.get m) : a = b := by
  have h1 := h .length
  have h2 := h .time
  have h3 := h .mass
  have h4 := h .temperature
  have h5 := h .electricCurrent
  have h6 := h .amountOfSubstance
  have h7 := h .luminousIntensity
  have h8 := h .money
  have h9 := h .other
  cases a
  cases b
  simp_all [get]

def basic (m : Magnitude) : Dimension := ofFun fun k => if k = m then 1 else 0

/-- All exponents, in the order of the magnitudes. -/
def exponents (d : Dimension) : List Int := Magnitude.all.map fun m => (d.get m).toInt

def isNone (d : Dimension) : Bool := d = none

/-! ### Arithmetic -/

def InRange (n : Int) : Prop := -128 ≤ n ∧ n ≤ 127

instance (n : Int) : Decidable (InRange n) := inferInstanceAs (Decidable (_ ∧ _))

/-- The dimension with these exponents, or the first magnitude whose exponent does not fit. -/
def ofInts (f : Magnitude → Int) : Except DimensionError Dimension :=
  match Magnitude.all.find? fun m => !decide (InRange (f m)) with
  | some m => .error (.overflow m)
  | .none => .ok (ofFun fun m => Int8.ofInt (f m))

def mul (a b : Dimension) : Except DimensionError Dimension :=
  ofInts fun m => (a.get m).toInt + (b.get m).toInt

def div (a b : Dimension) : Except DimensionError Dimension :=
  ofInts fun m => (a.get m).toInt - (b.get m).toInt

def pow (a : Dimension) (n : Int8) : Except DimensionError Dimension :=
  ofInts fun m => (a.get m).toInt * n.toInt

def inv (a : Dimension) : Except DimensionError Dimension := div none a

/-! ### Text -/

/-- One magnitude with its exponent, unless that is zero. -/
def slotText? (d : Dimension) (m : Magnitude) : Option String :=
  let e := (d.get m).toInt
  if e = 0 then .none
  else if e = 1 then some m.symbol
  else some (m.symbol ++ "^" ++ toString e)

def text (d : Dimension) : String :=
  "<" ++ String.intercalate " " (Magnitude.all.filterMap d.slotText?) ++ ">"

/-- The dimension with the listed exponents, if there are nine of them and all fit. -/
def ofList? (es : List Int) : Option Dimension :=
  if es.length = Magnitude.all.length && es.all (fun e => decide (InRange e)) then
    some (ofFun fun m => Int8.ofInt (es.getD m.index 0))
  else .none

end Dimension

end Quantity
