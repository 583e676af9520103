import BotConsole.Json.Value

namespace BotConsole.Json.Record

-- The fields of a record by the order in which they are declared, with what is left of each
-- after the parts that nobody reads are taken away.
abbrev Shape := List (String × (Tree → Tree))

-- The field of one name. A name that stands twice makes the whole record unreadable.
def field? (name : String) (members : List (Option String × Tree)) : Option (Option Tree) :=
  match members.filter (·.1 == some name) with
  | [] => some none
  | [(_, t)] => some (some t)
  | _ => none

-- The fields of a record that is written as an object, or as the list of its fields in the
-- order of their declaration. Other members of an object are passed over, as long as their
-- names can be read.
def fields? (names : List String) : Tree → Option (List (Option Tree))
  | .object members =>
    if members.all (·.1.isSome) then names.mapM (field? · members) else none
  | .list items =>
    if items.length ≤ names.length then
      some (items.map some ++ List.replicate (names.length - items.length) none)
    else none
  | _ => none

def orElse {α : Type} (default : α) (read? : Tree → Option α) : Option Tree → Option α
  | none => some default
  | some t => read? t

def nullable {α : Type} (read? : Tree → Option α) : Option Tree → Option (Option α)
  | none => some none
  | some .null => some none
  | some t => (read? t).map some

def required {α : Type} (read? : Tree → Option α) : Option Tree → Option α
  | none => none
  | some t => read? t

def text? : Tree → Option String
  | .text s => s
  | _ => none

def bool? : Tree → Option Bool
  | .bool b => some b
  | _ => none

def signed64? : Tree → Option Int
  | .number (some (.int i)) =>
    if -(1 <<< 63 : Nat) ≤ i ∧ i < (1 <<< 63 : Nat) then some i else none
  | _ => none

def list? {α : Type} (read? : Tree → Option α) : Tree → Option (List α)
  | .list items => items.mapM read?
  | _ => none

def readPart (shape : Shape) : Tree → Tree
  | .object members => .object <| members.filterMap fun (key, t) =>
    match key with
    | none => some (none, t)
    | some name => (shape.lookup name).map fun part => (some name, part t)
  | .list items =>
    .list (items.zipIdx.map fun (t, i) => match shape[i]? with
      | some (_, part) => part t
      | none => t)
  | t => t

def listPart (part : Tree → Tree) : Tree → Tree
  | .list items => .list (items.map part)
  | t => t

end BotConsole.Json.Record
