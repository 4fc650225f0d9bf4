import Quantity.CommandLine.Arguments

/-!
# Help

Help lists the arguments of a topic in two columns. The options of a command stand in the
order of their places in their own lists, those of the command and those of all commands; of
two in the same place the one with the lesser key comes first.
-/

namespace Quantity.CommandLine

def versionText : String := "metrum 0.1.0\n"

/-! ### What things are for -/

def CommandName.about : CommandName → String
  | check => "Compile definitions and report diagnostics"
  | generate => "Generate Rust source for every unit and scale"
  | dump => "Print the resolved model as JSON"

def OptionName.about : OptionName → String
  | config => "Settings file (defaults to ./Metrum.toml when present)"
  | logLevel => "Log level for the metrum crates (RUST_LOG takes precedence)"
  | jsonLogs => "Emit logs as JSON"
  | output => "Output directory"
  | moduleName => "Name of the generated module"
  | noDocs => "Leave out documentation comments"
  | compact => "Single-line JSON"
  | help => "Print help"
  | version => "Print version"

def Topic.about : Topic → String
  | program => "Compiler for units-of-measurement definitions"
  | command name => name.about
  | help => "Print this message or the help of the given subcommand(s)"

def Topic.usage : Topic → String
  | program => "Usage: metrum [OPTIONS] <COMMAND>"
  | command .generate => "Usage: metrum generate [OPTIONS] --output <OUTPUT> <FILE>"
  | command name => "Usage: metrum " ++ name.word ++ " [OPTIONS] <FILE>"
  | help => "Usage: metrum help [COMMAND]..."

/-! ### Columns -/

def columns (rows : List (String × String)) : List String :=
  let width := (rows.map (·.1.length)).foldl max 0
  rows.map fun (left, right) =>
    left ++ String.ofList (List.replicate (width + 2 - left.length) ' ') ++ right

/-- A heading with its lines, apart from what goes before. -/
def headed (heading : String) (lines : List String) : List String :=
  if lines.isEmpty then [] else ["", heading ++ ":"] ++ lines

/-- What options in the same place are ordered by: the letter, or else the word. -/
def OptionName.key (o : OptionName) : String :=
  match o.short? with
  | some c => String.ofList [c.toLower, if c.isLower then '0' else '1']
  | none => o.long

def placed (options : List OptionName) : List (Nat × OptionName) :=
  options.zipIdx.map fun (o, i) => (i, o)

def Topic.listed : Topic → List OptionName
  | program => program.options
  | command name =>
    let before (a b : Nat × OptionName) : Bool :=
      a.1 < b.1 || (a.1 = b.1 && a.2.key ≤ b.2.key)
    ((placed globalOptions ++ placed name.options).mergeSort before).map (·.2) ++ [.help]
  | help => []

def OptionName.row (o : OptionName) : String × String :=
  let letter := match o.short? with
    | some c => "  -" ++ String.singleton c ++ ", "
    | none => "      "
  (letter ++ o.usage, o.about)

def commandRows : List (String × String) :=
  (CommandName.all.map fun c => ("  " ++ c.word, c.about)) ++ [("  help", Topic.help.about)]

/-- The lines of the arguments that are no options. -/
def Topic.argumentRows : Topic → List (String × String)
  | program => []
  | command _ => [("  " ++ fileUsage, "")]
  | help => [("  [COMMAND]...", "Print help for the subcommand(s)")]

def helpLines (topic : Topic) : List String :=
  [topic.about, "", topic.usage]
    ++ headed "Commands" (if topic = .program then columns commandRows else [])
    ++ headed "Arguments" (columns topic.argumentRows)
    ++ headed "Options" (columns (topic.listed.map OptionName.row))

def helpText (topic : Topic) : String := String.join ((helpLines topic).map (· ++ "\n"))

/-! ### Refusals -/

/-- What is wrong with the arguments, and how the program is called instead. -/
def usageError (problem : String) (usage : Option String) : String :=
  "error: " ++ problem ++ (usage.map ("\n\n" ++ ·)).getD ""
    ++ "\n\nFor more information, try '--help'.\n"

/-- What is printed in place of the output of a command. -/
def Refusal.text : Refusal → String
  | noArguments => helpText .program
  | noCommand =>
    usageError ("'metrum' requires a subcommand but one was not provided\n  [subcommands: "
      ++ String.intercalate ", " (CommandName.all.map (·.word) ++ ["help"]) ++ "]")
      (some Topic.program.usage)
  | unknownCommand topic word =>
    usageError ("unrecognized subcommand '" ++ word ++ "'") (some topic.usage)
  | unexpected topic word =>
    usageError ("unexpected argument '" ++ word ++ "' found") (some topic.usage)
  | noValue argument =>
    usageError ("a value is required for '" ++ argument ++ "' but none was supplied") none
  | needlessValue topic argument value =>
    usageError ("unexpected value '" ++ value ++ "' for '" ++ argument
      ++ "' found; no more were expected") (some topic.usage)
  | repeated topic argument =>
    usageError ("the argument '" ++ argument ++ "' cannot be used multiple times")
      (some topic.usage)
  | missing command arguments =>
    usageError ("the following required arguments were not provided:"
      ++ String.join (arguments.map ("\n  " ++ ·)))
      (some ("Usage: metrum " ++ command.word ++ " " ++ String.intercalate " " command.required))
  | help topic => helpText topic
  | version => versionText

end Quantity.CommandLine
