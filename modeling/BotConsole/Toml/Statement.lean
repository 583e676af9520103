import BotConsole.Toml.Reader

namespace BotConsole.Toml

-- What begins a section: the path of a table, or of a list of tables that it adds one to.
inductive Header where
  | table (path : Path)
  | item (path : Path)
  deriving DecidableEq

inductive Statement where
  | header (header : Header)
  | assignment (path : Path) (value : Tree)
  deriving Inhabited

namespace Statement

def header? (s : List Char) : Option (Header × List Char) :=
  match s with
  | '[' :: s => do
    match ← Key.path? (s.dropWhile isBlank) with
    | (path, ']' :: ']' :: rest) => some (.item path, rest)
    | _ => none
  | s => do
    match ← Key.path? (s.dropWhile isBlank) with
    | (path, ']' :: rest) => some (.table path, rest)
    | _ => none

def read? (s : List Char) : Option (Statement × List Char) :=
  match s with
  | '[' :: s => (header? s).map fun (h, rest) => (.header h, rest)
  | s =>
    (Reader.assignment? (s.length + 1) s).map fun (path, t, rest) => (.assignment path t, rest)

-- The statements of a document, each on a line of its own. Every statement uses up a
-- character, so fuel above the length of the text does not run out.
def all? : Nat → List Char → Option (List Statement)
  | 0, _ => none
  | fuel + 1, s => do
    match ← Reader.gap? false s with
    | [] => some []
    | s =>
      let (statement, rest) ← read? s
      let statements ← all? fuel (← Reader.lineEnd? false rest)
      some (statement :: statements)

-- The lines of a text as a document. A byte order mark in front is passed over.
def ofText? (s : List Char) : Option (List Statement) :=
  let s := match s with
    | '\ufeff' :: s => s
    | s => s
  all? (s.length + 1) s

end Statement

end BotConsole.Toml
