import Quantity.Span

/-!
# Diagnostics

Problems are reported, not raised: every stage of the work adds to a list of diagnostics. A
diagnostic may rest on a chain of earlier ones, its causes.
-/

namespace Quantity

/-- How bad a problem is. -/
inductive Severity where
  | warning
  | error
  deriving DecidableEq, Repr

def Severity.word : Severity → String
  | warning => "warning"
  | error => "error"

/-- The stage of the work that found a problem. -/
inductive Stage where
  /-- Cutting the text into tokens. -/
  | lex
  /-- Reading declarations. -/
  | parse
  /-- Giving declarations their meaning. -/
  | semantic
  /-- Building and loading modules. -/
  | backend
  deriving DecidableEq, Repr

def Stage.word : Stage → String
  | lex => "lex"
  | parse => "parse"
  | semantic => "semantic"
  | backend => "backend"

/-- A problem by itself. -/
structure Notice where
  severity : Severity := .error
  stage : Stage
  /-- The text or module the problem is in. -/
  source : Option String := none
  span : Option Span := none
  message : String
  deriving DecidableEq, Repr

/-- A problem and the problems behind it, the nearest first. -/
structure Diagnostic extends Notice where
  causes : List Notice := []
  deriving DecidableEq, Repr

namespace Diagnostic

def error (stage : Stage) (message : String) : Diagnostic := { stage, message }

def errorAt (stage : Stage) (span : Span) (message : String) : Diagnostic :=
  { stage, message, span := some span }

def causedBy (d cause : Diagnostic) : Diagnostic :=
  { d with causes := cause.toNotice :: cause.causes }

def isError (d : Diagnostic) : Bool := d.severity = .error

/-- Where the problem is, as the beginning of its line. -/
def place (d : Diagnostic) : String :=
  match d.source, d.span with
  | some source, some span => source ++ ":" ++ span.text ++ ": "
  | some source, none => source ++ ": "
  | none, some span => span.text ++ ": "
  | none, none => ""

def causeText (n : Notice) : String :=
  let place := match n.span with
    | some span => " (at " ++ span.text ++ ")"
    | none => ""
  "\n  caused by: " ++ n.message ++ place

def render (d : Diagnostic) : String :=
  d.place ++ d.severity.word ++ ": " ++ d.message ++ String.join (d.causes.map causeText)

end Diagnostic

/-- The diagnostics about one source, in the order in which they were found. -/
structure Diagnostics where
  source : Option String := none
  items : List Diagnostic := []
  deriving DecidableEq, Repr

namespace Diagnostics

/-- Add a diagnostic; one without a source gets the source of the list. -/
def push (ds : Diagnostics) (d : Diagnostic) : Diagnostics :=
  { ds with items := ds.items ++ [{ d with source := d.source.or ds.source }] }

def pushAll (ds : Diagnostics) (more : List Diagnostic) : Diagnostics := more.foldl push ds

def ofDiagnostic (d : Diagnostic) : Diagnostics := ({} : Diagnostics).push d

def errors (ds : Diagnostics) : List Diagnostic := ds.items.filter (·.isError)

def hasErrors (ds : Diagnostics) : Bool := ds.items.any (·.isError)

def errorCount (ds : Diagnostics) : Nat := ds.errors.length

def render (ds : Diagnostics) : String :=
  String.intercalate "\n" (ds.items.map (·.render))

end Diagnostics

end Quantity
