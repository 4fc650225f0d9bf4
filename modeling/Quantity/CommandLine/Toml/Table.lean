import Quantity.CommandLine.Setting

/-!
# Tables in TOML

A header leads to a table or adds one to a list of tables, and the settings below it belong
there. The dots of a key lead into tables as well. No setting and no header may occur twice, and
a table is made either by headers or by the dots of keys.
-/

namespace Quantity.CommandLine.Toml

/-- What a path stands for. -/
inductive Node where
  | value (value : SettingValue)
  /-- A table with a header of its own. -/
  | headed
  /-- A table on the way to one with a header. -/
  | passed
  /-- A table that the dots of a key make. -/
  | dotted
  /-- A list of tables, each with a header of its own. -/
  | tables (count : Nat)

/-- What has been read of a file. -/
structure State where
  /-- The table of the header above. -/
  here : List Step := []
  nodes : List (List Step × Node) := []

namespace State

def node? (s : State) (path : List Step) : Option Node :=
  (s.nodes.find? fun n => n.1 = path).map (·.2)

def define (s : State) (path : List Step) (node : Node) : State :=
  { s with nodes := s.nodes.filter (fun n => n.1 ≠ path) ++ [(path, node)] }

/-- The table that a path leads to; of a list of tables that is the last one. -/
def tableAt (s : State) (path : List Step) : List Step :=
  match s.node? path with
  | some (.tables count) => path ++ [.item (count - 1 : Nat)]
  | _ => path

/-- Pass through a table on the way to one with a header. -/
def pass? (s : State) (path : List Step) : Option State :=
  match s.node? path with
  | none => some (s.define path .passed)
  | some (.value _) => none
  | some _ => some s

def enter? (s : State) (path : List Step) : Option State :=
  match s.node? path with
  | none => some (s.define path .dotted)
  | some .passed | some .dotted | some (.tables _) => some s
  | some (.value _) | some .headed => none

/-- Go through the tables of some keys, and give the path to the last one. -/
def walk? (step? : State → List Step → Option State) (s : State) (path : List Step) :
    (keys : List String) → Option (State × List Step)
  | [] => some (s, path)
  | key :: keys => do
    let path := path ++ [.key key]
    let s ← step? s path
    walk? step? s (s.tableAt path) keys

def open? (s : State) (keys : List String) : Option State := do
  let (s, above) ← s.walk? pass? [] keys.dropLast
  let path := above ++ (keys.getLast?.map .key).toList
  match s.node? path with
  | none | some .passed => some { s.define path .headed with here := path }
  | some _ => none

def add (s : State) (path : List Step) (count : Nat) : State :=
  let s := (s.define path (.tables (count + 1))).define (path ++ [.item count]) .headed
  { s with here := path ++ [.item count] }

/-- Go on below the header of another table of a list. -/
def openNext? (s : State) (keys : List String) : Option State := do
  let (s, above) ← s.walk? pass? [] keys.dropLast
  let path := above ++ (keys.getLast?.map .key).toList
  match s.node? path with
  | none => some (s.add path 0)
  | some (.tables count) => some (s.add path count)
  | some _ => none

/-- Whether a key of several parts may be set in a table, which its own dots must have made. -/
def admits (s : State) (above : List Step) (keys : List String) : Bool :=
  keys.length ≤ 1 || match s.node? above with
    | some .dotted => true
    | _ => false

def set? (s : State) (keys : List String) (value : SettingValue) : Option State := do
  let (s, above) ← s.walk? enter? s.here keys.dropLast
  let path := above ++ (keys.getLast?.map .key).toList
  if s.admits above keys && (s.node? path).isNone then some (s.define path (.value value))
  else none

/-- The setting of a path. A list of tables is made by the settings of its tables. -/
def settingOf? (path : List Step) : Node → Option Setting
  | .value value => some ⟨path, value⟩
  | .headed | .passed | .dotted => some ⟨path, .table []⟩
  | .tables _ => none

def tree (s : State) : SettingValue :=
  treeOf (s.nodes.filterMap fun (path, node) => settingOf? path node)

end State

end Quantity.CommandLine.Toml
