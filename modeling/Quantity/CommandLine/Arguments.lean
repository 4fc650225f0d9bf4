/-!
# Arguments

The program is called with a command, its file and options. Options that hold for all commands
may stand before or after the command. An option with a value takes it from the same word,
after an equals sign, or from the next word. After two dashes everything is a file.

Arguments are taken in order, and the first one that makes no sense or asks for help decides.
A value from a word of its own is checked when the next argument takes effect, so a command is
read before the last value in front of it.
-/

namespace Quantity.CommandLine

/-- What is to be done. -/
inductive Command where
  /-- Compile definitions and report. -/
  | check (file : String)
  /-- Generate source into a directory. -/
  | generate (file output : String) (moduleName : Option String) (noDocs : Bool)
  /-- Print the view of the definitions. -/
  | dump (file : String) (compact : Bool)
  deriving DecidableEq, Repr

/-- A call of the program. -/
structure Invocation where
  /-- The settings file. -/
  config : Option String
  command : Command
  deriving DecidableEq, Repr

/-- The names of the commands. -/
inductive CommandName where
  | check
  | generate
  | dump
  deriving DecidableEq, Repr

namespace CommandName

def all : List CommandName := [check, generate, dump]

def word : CommandName → String
  | check => "check"
  | generate => "generate"
  | dump => "dump"

def ofWord? (word : String) : Option CommandName := all.find? fun c => c.word = word

end CommandName

/-- What arguments belong to, and what help is about. -/
inductive Topic where
  | program
  | command (name : CommandName)
  /-- Help itself. -/
  | help
  deriving DecidableEq, Repr

/-- Why no command is run. -/
inductive Refusal where
  /-- There is not a single argument. -/
  | noArguments
  | noCommand
  | unknownCommand (topic : Topic) (word : String)
  | unexpected (topic : Topic) (word : String)
  /-- An argument has no value, or an empty one where a path is asked for. -/
  | noValue (argument : String)
  /-- An option has a value that takes none. -/
  | needlessValue (topic : Topic) (argument value : String)
  | repeated (topic : Topic) (argument : String)
  /-- Arguments of a command are missing. -/
  | missing (command : CommandName) (arguments : List String)
  | help (topic : Topic)
  | version
  deriving DecidableEq, Repr

/-! ### Options -/

/-- The names of the options. -/
inductive OptionName where
  | config
  | logLevel
  | jsonLogs
  | output
  | moduleName
  | noDocs
  | compact
  | help
  | version
  deriving DecidableEq, Repr

/-- What follows an option. -/
inductive Operands where
  | none
  | text
  /-- A text that is not empty. -/
  | path
  deriving DecidableEq, Repr

namespace OptionName

def operands : OptionName → Operands
  | config | output => .path
  | logLevel | moduleName => .text
  | jsonLogs | noDocs | compact | help | version => .none

def long : OptionName → String
  | config => "config"
  | logLevel => "log-level"
  | jsonLogs => "json-logs"
  | output => "output"
  | moduleName => "module-name"
  | noDocs => "no-docs"
  | compact => "compact"
  | help => "help"
  | version => "version"

def short? : OptionName → Option Char
  | output => some 'o'
  | help => some 'h'
  | version => some 'V'
  | _ => none

/-- The name of the option's value: the word for the option in capitals. -/
def valueName (o : OptionName) : String :=
  String.ofList (o.long.toList.map fun c => if c = '-' then '_' else c.toUpper)

/-- The option with its value, as help and errors show it. -/
def usage (o : OptionName) : String :=
  "--" ++ o.long ++ (if o.operands = .none then "" else " <" ++ o.valueName ++ ">")

end OptionName

def globalOptions : List OptionName := [.config, .logLevel, .jsonLogs]

def CommandName.options : CommandName → List OptionName
  | check => []
  | generate => [.output, .moduleName, .noDocs]
  | dump => [.compact]

/-- The options that may stand before the command or after it. -/
def Topic.options : Topic → List OptionName
  | program => globalOptions ++ [.help, .version]
  | command name => globalOptions ++ name.options ++ [.help]
  | help => []

/-- The file of a command, as help and errors show it. -/
def fileUsage : String := "<FILE>"

/-- One word or two of the arguments, understood. -/
inductive Item where
  | option (name : OptionName) (value : String)
  | file (name : String)
  deriving DecidableEq, Repr

/-- Whether a word begins an option. A single dash is a file. -/
def looksLikeOption (word : String) : Bool := word.startsWith "-" && word ≠ "-"

/-- A name and what follows the first equals sign. -/
def splitEquals (cs : List Char) : List Char × Option String :=
  match cs.dropWhile (· ≠ '=') with
  | _ :: value => (cs.takeWhile (· ≠ '='), some (String.ofList value))
  | [] => (cs, none)

def valueBehind : List Char → Option String
  | [] => none
  | '=' :: value => some (String.ofList value)
  | value => some (String.ofList value)

/-- The option that a word begins with a dash or two, and its value in the same word. What
follows the letter of an option without values does not count. -/
def optionOf? (topic : Topic) (word : String) : Option (OptionName × Option String) :=
  match word.toList with
  | '-' :: '-' :: cs =>
    let (name, value) := splitEquals cs
    (topic.options.find? fun o => o.long = String.ofList name).map fun o => (o, value)
  | '-' :: c :: cs =>
    (topic.options.find? fun o => o.short? = some c).map fun o =>
      (o, if o.operands = .none then none else valueBehind cs)
  | _ => none

def optionPart (word : String) : String :=
  match word.toList with
  | '-' :: '-' :: cs => "--" ++ String.ofList (splitEquals cs).1
  | '-' :: c :: _ => "-" ++ String.singleton c
  | _ => word

/-! ### Taking arguments in order -/

/-- What has been read of the arguments of a topic. -/
structure Reading where
  items : List Item := []
  /-- The last value or file, which is yet to be checked. -/
  pending : Option Item := none
  deriving DecidableEq, Repr

def valueOf? (items : List Item) (o : OptionName) : Option String :=
  items.findSome? fun
    | .option name value => if name = o then some value else none
    | .file _ => none

def fileOf? (items : List Item) : Option String :=
  items.findSome? fun
    | .file name => some name
    | .option _ _ => none

/-- Take one more item: an option may be given once, and a path is not empty. -/
def accept (topic : Topic) (items : List Item) (item : Item) : Except Refusal (List Item) :=
  match item with
  | .option o value =>
    if (valueOf? items o).isSome then .error (.repeated topic o.usage)
    else if o.operands = .path && value = "" then .error (.noValue o.usage)
    else .ok (items ++ [item])
  | .file name => if name = "" then .error (.noValue fileUsage) else .ok (items ++ [item])

namespace Reading

def settle (r : Reading) (topic : Topic) : Except Refusal (List Item) :=
  match r.pending with
  | some item => accept topic r.items item
  | none => .ok r.items

/-- Take an option with the value in its word; help and version end everything. -/
def takeOption (r : Reading) (topic : Topic) (o : OptionName) (value : String) :
    Except Refusal Reading := do
  let items ← r.settle topic
  match o with
  | .help => throw (.help topic)
  | .version => throw .version
  | _ => return { items := ← accept topic items (.option o value) }

def takeValue (r : Reading) (topic : Topic) (o : OptionName) (rest : List String) :
    Except Refusal (Reading × List String) := do
  let items ← r.settle topic
  match rest with
  | word :: rest =>
    if looksLikeOption word then throw (.noValue o.usage)
    else return ({ items, pending := some (.option o word) }, rest)
  | [] => throw (.noValue o.usage)

/-- Take a word that begins an option, and its value from the words after it. -/
def takeWord (r : Reading) (topic : Topic) (word : String) (rest : List String) :
    Except Refusal (Reading × List String) :=
  match optionOf? topic word with
  | none => .error (.unexpected topic (optionPart word))
  | some (o, value) =>
    match o.operands, value with
    | .none, some value => .error (.needlessValue topic o.usage value)
    | .none, none => do return (← r.takeOption topic o "", rest)
    | _, some value => do return (← r.takeOption topic o value, rest)
    | _, none => r.takeValue topic o rest

/-- Take the file of a command. There is only one. -/
def takeFile (r : Reading) (topic : Topic) (name : String) : Except Refusal Reading :=
  if (fileOf? (r.items ++ r.pending.toList)).isSome then .error (.unexpected topic name)
  else do return { items := ← r.settle topic, pending := some (.file name) }

end Reading

/-- The items after a command. `fuel` bounds the number of arguments. -/
def commandItems (command : CommandName) :
    (fuel : Nat) → Reading → List String → Except Refusal (List Item)
  | 0, r, _ | _, r, [] => r.settle (.command command)
  | fuel + 1, r, word :: rest =>
    if word = "--" then do
      (← rest.foldlM (fun r name => r.takeFile (.command command) name) r).settle
        (.command command)
    else if looksLikeOption word then do
      let (r, rest) ← r.takeWord (.command command) word rest
      commandItems command fuel r rest
    else do commandItems command fuel (← r.takeFile (.command command) word) rest

/-! ### Putting a call together -/

def CommandName.required : CommandName → List String
  | generate => [OptionName.output.usage, fileUsage]
  | _ => [fileUsage]

/-- What a command has of the arguments that it cannot do without. -/
def given (items : List Item) : List String :=
  items.map fun
    | .option o _ => o.usage
    | .file _ => fileUsage

/-- The command that the items after its name describe. -/
def commandOf (command : CommandName) (items : List Item) : Except Refusal Command :=
  match command, fileOf? items, valueOf? items .output with
  | .check, some file, _ => .ok (.check file)
  | .dump, some file, _ => .ok (.dump file (valueOf? items .compact).isSome)
  | .generate, some file, some output =>
    .ok (.generate file output (valueOf? items .moduleName) (valueOf? items .noDocs).isSome)
  | _, _, _ =>
    .error (.missing command (command.required.filter fun a => !(given items).contains a))

/-- The request for help on a command, or on help itself. -/
def helpFor : List String → Refusal
  | [] => .help .program
  | word :: rest =>
    let topic? : Option Topic :=
      if word = "help" then some .help else (CommandName.ofWord? word).map .command
    match topic?, rest with
    | none, _ => .unknownCommand .program word
    | some topic, [] => .help topic
    | some topic, word :: _ => .unknownCommand topic word

/-- The call that a command makes after options for all commands. An option that is given on
both sides counts behind the command. -/
def invocationOf (before : Reading) (command : CommandName) (rest : List String) :
    Except Refusal Invocation := do
  let after ← commandItems command (rest.length + 1) {} rest
  let result ← commandOf command after
  let before ← before.settle .program
  return ⟨(valueOf? after .config).or (valueOf? before .config), result⟩

/-- Read arguments after some that have been read; `fuel` bounds their number. -/
def readFrom : (fuel : Nat) → Reading → List String → Except Refusal Invocation
  | 0, _, _ => .error .noCommand
  | _, r, [] => do
    throw (if (← r.settle .program).isEmpty then .noArguments else .noCommand)
  | fuel + 1, r, word :: rest =>
    if word = "--" then
      .error (match rest with
        | [] => if r.items.isEmpty && r.pending.isNone then .noArguments else .noCommand
        | word :: _ => .unexpected .program word)
    else if looksLikeOption word then do
      let (r, rest) ← r.takeWord .program word rest
      readFrom fuel r rest
    else
      match CommandName.ofWord? word with
      | some command => invocationOf r command rest
      | none =>
        .error (if word = "help" then helpFor rest else .unknownCommand .program word)

def Invocation.read (args : List String) : Except Refusal Invocation :=
  readFrom (args.length + 1) {} args

end Quantity.CommandLine
