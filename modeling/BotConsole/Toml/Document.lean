import BotConsole.Toml.Statement
import BotConsole.Toml.Table
import BotConsole.Text.Integer

namespace BotConsole.Toml

def Tree.allowed? (t : Tree) : Option Value :=
  if t.depth ≤ Tree.maxDepth then t.value? else none

namespace Statement

-- The assignments in front of the first header, and those under each of the headers.
def sections? : List Statement →
    Option (List (Path × Value) × List (Header × List (Path × Value)))
  | [] => some ([], [])
  | .assignment path t :: statements => do
    let value ← t.allowed?
    let (own, sections) ← sections? statements
    some ((path, value) :: own, sections)
  | .header h :: statements => do
    let (own, sections) ← sections? statements
    some ([], (h, own) :: sections)

end Statement

namespace Entries

-- The table of a header in its parent, filled with the assignments of its section. It may
-- have been a step of an earlier header, but not more.
def define? (assignments : List (Path × Value)) (name : String) (parent : Entries) :
    Option Entries :=
  match parent.lookup name with
  | none =>
    (assignAll? assignments []).map fun new => parent ++ [(name, .table .header new)]
  | some (.table .ancestor inner) =>
    (assignAll? assignments inner).map fun new => replace name (.table .header new) parent
  | some _ => none

def append? (assignments : List (Path × Value)) (name : String) (parent : Entries) :
    Option Entries :=
  match parent.lookup name with
  | none => (assignAll? assignments []).map fun new => parent ++ [(name, .tables [] new)]
  | some (.tables earlier last) =>
    (assignAll? assignments []).map fun new =>
      replace name (.tables (earlier ++ [last]) new) parent
  | some _ => none

def section? (root : Entries) : Header × List (Path × Value) → Option Entries
  | (.table path, assignments) => do
    update? .ancestor (define? assignments (← path.getLast?)) path.dropLast root
  | (.item path, assignments) => do
    update? .ancestor (append? assignments (← path.getLast?)) path.dropLast root

end Entries

def read? (text : String) : Option (List (String × Value)) := do
  let (own, sections) ← Statement.sections? (← Statement.ofText? text.toList)
  let root ← Entries.assignAll? own []
  (sections.foldlM Entries.section? root).map Node.values

-- A document of the plain form that settings are saved in: names with values that have no
-- parts, first those outside any section, then those of each section under its name.
structure Document where
  own : List (String × Scalar)
  sections : List (String × List (String × Scalar))
  deriving DecidableEq

namespace Document

def scalar : Scalar → List Char
  | .text s => (Quotes.forText s.toList).enclose s.toList
  | .integer i => Text.integerText i
  | .float literal => literal.toList
  | .bool b => if b then ['t', 'r', 'u', 'e'] else ['f', 'a', 'l', 's', 'e']
  | .moment literal => literal.toList

def assignment : String × Scalar → List Char
  | (name, value) => Key.write name ++ [' ', '=', ' '] ++ scalar value ++ ['\n']

def titled : String × List (String × Scalar) → List Char
  | (name, assignments) => '[' :: Key.write name ++ [']', '\n'] ++ assignments.flatMap assignment

-- The parts of a document with an empty line between neighbours. Where nothing stands
-- outside the sections, the first section begins the text.
def write (d : Document) : String :=
  let own := if d.own.isEmpty then [] else [d.own.flatMap assignment]
  let parts := own ++ d.sections.map titled
  String.ofList (parts.intersperse ['\n']).flatten

def entries (d : Document) : List (String × Value) :=
  let table (assignments : List (String × Scalar)) : List (String × Value) :=
    assignments.map fun (name, value) => (name, .scalar value)
  table d.own ++ d.sections.map fun (name, assignments) => (name, .table (table assignments))

end Document

end BotConsole.Toml
