import Quantity.Declaration.Basic
import Quantity.Model.Scope
import Quantity.Options

/-!
# The meaning of declarations

Units may refer to units declared further down. So they are encoded in passes: each pass
tries every declaration that still waits for another one, until a pass makes no progress.
What waits then refers to itself in a circle. Scales are encoded after all units.
-/

namespace Quantity

/-- A failure of the compilation itself. -/
inductive CompileError where
  | internal (message : String)
  /-- There are more families than numbers for them. -/
  | familyOverflow
  deriving DecidableEq, Repr

def CompileError.message : CompileError → String
  | internal message => message
  | familyOverflow => "attempt to add with overflow"

/-- Why a unit has no meaning. -/
inductive UnitError where
  | duplicate (name : String)
  | alreadyDefined (name module : String)
  | tagTaken (tag owner : String)
  | unresolved (name : String)
  | invalidReference (owner name : String)
  /-- An alternative definition has another dimension. -/
  | otherDimension (name : String) (found expected : Dimension)
  /-- An alternative definition has another factor. -/
  | otherFactor (name : String) (found expected : Numeral)
  | zeroFactor (name : String)
  /-- The unit differs from the earlier one whose name it reuses. -/
  | differs (name module : String)
  | encoding (cause : EncodeError)
  deriving DecidableEq

def UnitError.message : UnitError → String
  | duplicate name => "Duplicate unit '" ++ name ++ "'"
  | alreadyDefined name module =>
    "Unit '" ++ name ++ "' is already defined in module '" ++ module ++ "'"
  | tagTaken tag owner => "Symbol \"" ++ tag ++ "\" is already used by unit '" ++ owner ++ "'"
  | unresolved name => "Unresolved reference '" ++ name ++ "'"
  | invalidReference owner name =>
    "Unit '" ++ owner ++ "' references invalid unit '" ++ name ++ "'"
  | otherDimension name found expected =>
    "Alternative definition of '" ++ name ++ "' has dimension " ++ found.text ++ ", expected "
      ++ expected.text
  | otherFactor name found expected =>
    "Alternative definition of '" ++ name ++ "' has factor " ++ found.text ++ ", expected "
      ++ expected.text
  | zeroFactor name => "Unit '" ++ name ++ "' has a zero conversion factor"
  | differs name module =>
    "Unit '" ++ name ++ "' redeclares the unit from module '" ++ module
      ++ "' with a different definition"
  | encoding cause => cause.message

/-- Why a scale has no meaning. -/
inductive ScaleError where
  | nameOfUnit (name : String)
  | duplicate (name : String)
  | alreadyDefined (name : String)
  | unresolved (name : String)
  | invalidUnit (name unit : String)
  | encoding (cause : EncodeError)
  deriving DecidableEq

def ScaleError.message : ScaleError → String
  | nameOfUnit name => "Name '" ++ name ++ "' is already used by a unit"
  | duplicate name => "Duplicate scale '" ++ name ++ "'"
  | alreadyDefined name => "Scale '" ++ name ++ "' is already defined"
  | unresolved name => "Unresolved reference '" ++ name ++ "'"
  | invalidUnit name unit =>
    "Scale '" ++ name ++ "' references invalid unit '" ++ unit ++ "'"
  | encoding cause => cause.message

namespace Elaborate

def unitError (span : Span) (e : UnitError) : Diagnostic := .errorAt .semantic span e.message

def scaleError (span : Span) (e : ScaleError) : Diagnostic := .errorAt .semantic span e.message

/-- The diagnostic, resting on another one if there is one. -/
def withCause (d : Diagnostic) (cause : Option Diagnostic) : Diagnostic :=
  match cause with
  | some c => d.causedBy c
  | none => d

/-! ### One unit -/

/-- The dimension and factor of a declaration. -/
structure Encoded where
  dimension : DimensionExpr
  factor : NumeralExpr
  deriving DecidableEq

/-- Why a declaration could not be encoded. -/
inductive Failure where
  /-- It waits for a unit. -/
  | deferred (name : String) (span : Span)
  | failed (why : Diagnostic)
  | internal (message : String)
  deriving DecidableEq

/-- What a fault in an expression means for the unit that is defined by it. -/
def failure (scope : Scope) (owner : String) : EncodeError → Failure
  | .pending name span => .deferred name span
  | .invalidReference name span =>
    .failed (withCause (unitError span (.invalidReference owner name)) (scope.cause? name))
  | .unresolved name span => .failed (unitError span (.encoding (.unresolved name span)))
  | .kindMismatch name span expected found =>
    .failed (unitError span (.encoding (.kindMismatch name span expected found)))
  | .numeral cause span => .failed (unitError span (.encoding (.numeral cause span)))
  | .dimension cause span => .failed (unitError span (.encoding (.dimension cause span)))
  | .addsDimensions text => .internal (EncodeError.addsDimensions text).message

/-- Encode one definition of a unit. -/
def encodeDefinition (scope : Scope) (owner : String) (kind : NumericKind) (e : Expr) :
    Except Failure Encoded :=
  let encoded := do
    let dimension ← e.encodeDimension scope.lookup
    let factor ← e.encodeValue scope.lookup kind
    return (⟨dimension, factor⟩ : Encoded)
  encoded.mapError (failure scope owner)

/-- Check that an alternative definition agrees with the first one. -/
def checkAlternative (name : String) (main alternative : Encoded) (span : Span) :
    Except Failure PUnit :=
  let found := alternative.factor
  let expected := main.factor
  if alternative.dimension.value ≠ main.dimension.value then
    .error (.failed (unitError span
      (.otherDimension name alternative.dimension.value main.dimension.value)))
  else if expected.constant && found.constant
      && !found.value.approxEq expected.value factorTolerance then
    .error (.failed (unitError span (.otherFactor name found.value expected.value)))
  else .ok ⟨⟩

/-- Encode a unit: all its definitions must have a meaning and agree, and a known factor
must not be zero. -/
def encodeUnit (scope : Scope) (kind : NumericKind) (d : UnitDecl) : Except Failure Encoded := do
  let main ← encodeDefinition scope d.name kind d.definition
  d.alternatives.forM fun e => do
    checkAlternative d.name main (← encodeDefinition scope d.name kind e) e.span
  if main.factor.constant && main.factor.value.isZero then
    throw (.failed (unitError d.definition.span (.zeroFactor d.name)))
  return main

/-! ### All units -/

/-- Units under way, with everything that was reported about them. -/
structure Progress extends Scope where
  /-- The units that claimed a tag. -/
  tags : Table
  diagnostics : Diagnostics

namespace Progress

/-- Report why the unit at a place has no meaning. -/
def fail (p : Progress) (i : Nat) (why : Diagnostic) : Progress :=
  { p with
    states := p.states.set i (.failed why)
    diagnostics := p.diagnostics.push why }

def modifyUnit (p : Progress) (i : Nat) (f : UnitEntry → UnitEntry) : Progress :=
  { p with units := p.units.modify i f }

def add (p : Progress) (kind : NumericKind) (d : UnitDecl) : Progress :=
  { p with
    units := p.units ++
      [{ name := d.name
         origin := .declared d.span
         kind
         dimension := .plain
         factor := .ofNumeral kind.one }]
    states := p.states ++ [.pending] }

def nameOf (p : Progress) (i : Nat) : String := (p.units[i]?.map (·.name)).getD ""

def moduleOf (p : Progress) (i : Nat) : String :=
  (p.units[i]?.bind (·.origin.module?)).getD "<definitions>"

/-- Claim tags for the unit at a place. The first tag that belongs to another unit than the
one it redeclares ends the attempt. -/
def claimTags (p : Progress) (i : Nat) (redeclares : Option Nat) :
    List String → Progress × Option (String × Nat)
  | [] => (p, none)
  | tag :: tags =>
    match p.tags.get? tag with
    | some owner =>
      if owner ≠ i ∧ some owner ≠ redeclares then (p, some (tag, owner))
      else claimTags { p with tags := p.tags.insert tag i } i redeclares tags
    | none => claimTags { p with tags := p.tags.insert tag i } i redeclares tags

end Progress

/-- What is left to do after all units have been declared: the places and declarations to
encode, and the late units that reuse the name of an earlier one. -/
structure Todo where
  pending : List (Nat × UnitDecl) := []
  aliases : List (Nat × Nat) := []

/-- Claim the name and the tags of a unit. -/
def claim (p : Progress) (todo : Todo) (i : Nat) (redeclares : Option Nat) (d : UnitDecl) :
    Progress × Todo :=
  let p := { p with names := p.names.insert d.name i }
  match p.claimTags i redeclares d.tags with
  | (p, some (tag, owner)) => (p.fail i (unitError d.span (.tagTaken tag (p.nameOf owner))), todo)
  | (p, none) => (p, { todo with pending := todo.pending ++ [(i, d)] })

/-- Declare a unit. A second late unit of a name is refused; an earlier unit of the name is
treated as the policy says. -/
def declareUnit (options : Options) (late : Nat) (p : Progress) (todo : Todo) (d : UnitDecl) :
    Progress × Todo :=
  let i := p.units.length
  let previous := p.names.get? d.name
  let p := p.add (d.kind.getD options.kind) d
  match previous with
  | none => claim p todo i none d
  | some previous =>
    if late ≤ previous then (p.fail i (unitError d.span (.duplicate d.name)), todo)
    else match options.redeclaration with
      | .reject =>
        (p.fail i (unitError d.span (.alreadyDefined d.name (p.moduleOf previous))), todo)
      | .newFamily =>
        claim (p.modifyUnit i fun u => { u with redeclared := true }) todo i (some previous) d
      | .sameUnit =>
        claim p { todo with aliases := todo.aliases ++ [(i, previous)] } i (some previous) d

/-- Declare units in turn. -/
def declareUnits (options : Options) (late : Nat) (p : Progress) (todo : Todo) :
    List UnitDecl → Progress × Todo
  | [] => (p, todo)
  | d :: ds =>
    let (p, todo) := declareUnit options late p todo d
    declareUnits options late p todo ds

/-- The unit with what its declaration means. -/
def complete (options : Options) (d : UnitDecl) (e : Encoded) (u : UnitEntry) : UnitEntry :=
  { u with
    dimension := e.dimension
    factor := e.factor
    format := d.format.getD options.format
    tags := d.tags
    valid := true }

/-- A declaration that waits for a unit. -/
structure Deferred where
  place : Nat
  decl : UnitDecl
  name : String
  span : Span

/-- One pass over the units that wait. -/
def encodePass (options : Options) (p : Progress) :
    List (Nat × UnitDecl) → Except CompileError (Progress × List Deferred)
  | [] => .ok (p, [])
  | (i, d) :: more =>
    match encodeUnit p.toScope ((p.units[i]?.map (·.kind)).getD options.kind) d with
    | .ok e =>
      let p := p.modifyUnit i (complete options d e)
      encodePass options { p with states := p.states.set i .done } more
    | .error (.deferred name span) => do
      let (p, deferred) ← encodePass options p more
      return (p, ⟨i, d, name, span⟩ :: deferred)
    | .error (.failed why) => encodePass options (p.fail i why) more
    | .error (.internal message) => .error (.internal message)

/-- Encode declarations in passes. When a pass makes no progress, what is left refers to
units that wait for each other. -/
def encodeUnits (options : Options) (p : Progress) (pending : List (Nat × UnitDecl)) :
    Except CompileError Progress :=
  match encodePass options p pending with
  | .error e => .error e
  | .ok (p, deferred) =>
    if deferred.isEmpty then .ok p
    else if _h : deferred.length < pending.length then
      encodeUnits options p (deferred.map fun d => (d.place, d.decl))
    else
      .ok (deferred.foldl (fun p d => p.fail d.place (unitError d.span (.unresolved d.name))) p)
termination_by pending.length
decreasing_by simpa using _h

/-! ### Aliases -/

/-- Whether two units are the same for all purposes. -/
def agree (a b : UnitEntry) : Bool :=
  a.kind = b.kind && a.dimension.value = b.dimension.value
    && a.factor.value.approxEq b.factor.value factorTolerance

/-- Compare late units with the earlier ones whose names they reuse. Those that agree are to
be removed, and their names lead to the earlier unit; the others have no meaning. -/
def resolveAliases (p : Progress) (removed : List Nat) : List (Nat × Nat) → Progress × List Nat
  | [] => (p, removed)
  | (i, previous) :: more =>
    match p.state i, p.units[i]?, p.units[previous]? with
    | .done, some late, some early =>
      if agree late early then
        resolveAliases { p with names := p.names.insert late.name previous } (removed ++ [i]) more
      else
        let why := unitError (late.origin.span?.getD {})
          (.differs late.name (p.moduleOf previous))
        resolveAliases ((p.modifyUnit i fun u => { u with valid := false }).fail i why) removed
          more
    | _, _, _ => resolveAliases p removed more

/-- The entries of a list at the places that are kept. -/
def without {α : Type} (removed : List Nat) (xs : List α) : List α :=
  xs.zipIdx.filterMap fun (x, i) => if removed.contains i then none else some x

/-- The place of an entry after others were removed. -/
def renumber (removed : List Nat) (i : Nat) : Nat := i - removed.countP (· < i)

/-- Leave out units and renumber the others. -/
def removeUnits (removed : List Nat) (p : Progress) : Progress :=
  { p with
    units := without removed p.units
    states := without removed p.states
    names := p.names.map (renumber removed) }

/-! ### Scales -/

/-- The scale of a declaration before its offset is known. -/
def bareScale (options : Options) (scope : Scope) (d : ScaleDecl) : ScaleEntry :=
  { name := d.name
    origin := .declared d.span
    unit := scope.names.get? d.unit
    offset := .ofNumeral options.kind.zero
    refPoint := d.refPoint
    format := d.format.getD "" }

def scaleNameError? (options : Options) (lateUnits lateScales : Nat) (scope : Scope)
    (scaleNames : Table) (d : ScaleDecl) : Option Diagnostic :=
  let error e := some (scaleError d.span e)
  if (scope.names.get? d.name).any (lateUnits ≤ ·) then error (.nameOfUnit d.name)
  else match scaleNames.get? d.name with
    | none => none
    | some previous =>
      if lateScales ≤ previous then error (.duplicate d.name)
      else if options.redeclaration = .reject then error (.alreadyDefined d.name)
      else none

/-- Encode the offset of a scale in the kind of its unit. -/
def encodeScale (scope : Scope) (d : ScaleDecl) (bare : ScaleEntry) :
    Except Diagnostic ScaleEntry :=
  let unresolved := Except.error (scaleError d.unitSpan (.unresolved d.unit))
  match bare.unit with
  | none => unresolved
  | some i =>
    match scope.state i, scope.units[i]? with
    | .done, some u =>
      match d.offset.encodeValue scope.lookup u.kind with
      | .ok offset =>
        .ok
          { bare with
            offset
            format := if bare.format.isEmpty then u.format else bare.format
            valid := true }
      | .error e =>
        let cause := match e with
          | .invalidReference name _ => scope.cause? name
          | _ => none
        .error (withCause (scaleError (e.span.getD d.span) (.encoding e)) cause)
    | .failed why, _ =>
      .error ((scaleError d.unitSpan (.invalidUnit d.name d.unit)).causedBy why)
    | _, _ => unresolved

/-- Scales under way. -/
structure ScaleProgress where
  scales : List ScaleEntry
  names : Table
  diagnostics : Diagnostics

/-- Declare a scale. The first late scale of a name claims it, with or without a meaning. -/
def declareScale (options : Options) (lateUnits lateScales : Nat) (scope : Scope)
    (p : ScaleProgress) (d : ScaleDecl) : ScaleProgress :=
  let bare := bareScale options scope d
  let (scale, why) := match scaleNameError? options lateUnits lateScales scope p.names d with
    | some why => (bare, some why)
    | none => match encodeScale scope d bare with
      | .ok scale => (scale, none)
      | .error why => (bare, some why)
  let claimed := (p.names.get? d.name).any (lateScales ≤ ·)
  { scales := p.scales ++ [scale]
    names := if claimed then p.names else p.names.insert d.name p.scales.length
    diagnostics := p.diagnostics.pushAll why.toList }

/-! ### All declarations -/

/-- The tables and states of the units that a model already has. -/
def start (m : Model) (diagnostics : Diagnostics) : Progress :=
  { units := m.units
    states := m.units.map fun u =>
      if u.valid then .done
      else .failed (.error .semantic ("Unit '" ++ u.name ++ "' is invalid"))
    names := m.units.zipIdx.foldl (fun t (u, i) => t.insert u.name i) {}
    tags := m.units.zipIdx.foldl (fun t (u, i) => u.tags.foldl (·.insert · i) t) {}
    diagnostics }

/-- The names of the scales that a model already has. -/
def scaleNames (m : Model) : Table :=
  m.scales.zipIdx.foldl (fun t (s, i) => t.insert s.name i) {}

/-- Add the meaning of unit declarations to a model. -/
def elaborateUnits (options : Options) (m : Model) (diagnostics : Diagnostics)
    (units : List UnitDecl) : Except CompileError Progress := do
  let (p, todo) := declareUnits options m.lateUnits (start m diagnostics) {} units
  let p ← encodeUnits options p todo.pending
  let (p, removed) := resolveAliases p [] todo.aliases
  return removeUnits removed p

/-- Add the meaning of declarations to a model. -/
def elaborate (options : Options) (m : Model) (diagnostics : Diagnostics) (d : Declarations) :
    Except CompileError (Model × Diagnostics) := do
  let p ← elaborateUnits options m diagnostics d.units
  let q := d.scales.foldl (declareScale options m.lateUnits m.lateScales p.toScope)
    ⟨m.scales, scaleNames m, p.diagnostics⟩
  return ({ m with units := p.units, scales := q.scales }, q.diagnostics)

end Elaborate

end Quantity
