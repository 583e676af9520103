import BotConsole.Toml.Value

namespace BotConsole.Toml

-- How a table came about, which decides what may still be added to it.
inductive Origin where
  -- Under a header of its own.
  | header
  -- As a step of the path of another header.
  | ancestor
  -- As a step of the path of an assignment.
  | dotted
  deriving DecidableEq

-- A place in a document that is being put together: a value that is complete, a table, or a
-- list of tables of which the last one may still grow.
inductive Node where
  | leaf (value : Value)
  | table (origin : Origin) (entries : List (String × Node))
  | tables (earlier : List (List (String × Node))) (last : List (String × Node))
  deriving Inhabited

abbrev Entries := List (String × Node)

namespace Node

mutual

def value : Node → Value
  | .leaf v => v
  | .table _ entries => .table (values entries)
  | .tables earlier last => .list (tableValues earlier ++ [.table (values last)])

def values : Entries → List (String × Value)
  | [] => []
  | (name, node) :: entries => (name, value node) :: values entries

def tableValues : List Entries → List Value
  | [] => []
  | entries :: rest => .table (values entries) :: tableValues rest

end

end Node

namespace Entries

def replace (name : String) (node : Node) : Entries → Entries
  | [] => []
  | entry :: entries =>
    if entry.1 = name then (name, node) :: entries else entry :: replace name node entries

-- Changes the table at the end of a path; tables that are missing on the way are made.
-- Values that are complete cannot be entered.
def update? (origin : Origin) (change : Entries → Option Entries) :
    Path → Entries → Option Entries
  | [], entries => change entries
  | name :: path, entries =>
    match entries.lookup name with
    | none =>
      (update? origin change path []).map fun new => entries ++ [(name, .table origin new)]
    | some (.table o inner) =>
      (update? origin change path inner).map fun new => replace name (.table o new) entries
    | some (.tables earlier last) =>
      (update? origin change path last).map fun new =>
        replace name (.tables earlier new) entries
    | some (.leaf _) => none

-- Every table on the path that stands already was made by paths of assignments, so that
-- another assignment may enter it. Tables on the way that headers named only as steps may be
-- passed, but not be given a value.
def mayAssign : Path → Entries → Bool
  | [], _ => true
  | name :: path, entries =>
    match entries.lookup name with
    | none => true
    | some (.table .dotted inner) => mayAssign path inner
    | some (.table .ancestor inner) => !path.isEmpty && mayAssign path inner
    | some (.tables _ last) => !path.isEmpty && mayAssign path last
    | some _ => false

def add? (name : String) (node : Node) (entries : Entries) : Option Entries :=
  if (entries.lookup name).isSome then none else some (entries ++ [(name, node)])

def assign? (path : Path) (value : Value) (entries : Entries) : Option Entries :=
  match path.getLast? with
  | none => none
  | some name =>
    if mayAssign path.dropLast entries then
      update? .dotted (add? name (.leaf value)) path.dropLast entries
    else none

def assignAll? (assignments : List (Path × Value)) (entries : Entries) : Option Entries :=
  assignments.foldlM (fun entries (path, value) => assign? path value entries) entries

end Entries

mutual

def Tree.value? : Tree → Option Value
  | .scalar s => some (.scalar s)
  | .list items => (Tree.values? items).map .list
  | .inline members => do
    let entries ← Entries.assignAll? (← Tree.assignments? members) []
    some (.table (Node.values entries))

def Tree.values? : List Tree → Option (List Value)
  | [] => some []
  | t :: items => do
    let v ← Tree.value? t
    let vs ← Tree.values? items
    some (v :: vs)

def Tree.assignments? : List (Path × Tree) → Option (List (Path × Value))
  | [] => some []
  | (path, t) :: members => do
    let v ← Tree.value? t
    let rest ← Tree.assignments? members
    some ((path, v) :: rest)

end

end BotConsole.Toml
