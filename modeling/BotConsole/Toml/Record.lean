import BotConsole.Toml.Value

namespace BotConsole.Toml.Record

-- The fields of a record, written as a table, or as a list of its fields in the order of
-- their declaration. Other entries of a table and further items of a list are passed over,
-- and a moment counts as a table without any field.
def fields? (names : List String) : Value → Option (List (Option Value))
  | .table entries => some (names.map (List.lookup · entries))
  | .list items => some (names.zipIdx.map fun (_, i) => items[i]?)
  | .scalar (.moment _) => some (names.map fun _ => none)
  | .scalar _ => none

def orElse {α : Type} (default : α) (read? : Value → Option α) : Option Value → Option α
  | none => some default
  | some v => read? v

def text? : Value → Option String
  | .scalar (.text s) => some s
  | _ => none

def bool? : Value → Option Bool
  | .scalar (.bool b) => some b
  | _ => none

def unsigned64? : Value → Option UInt64
  | .scalar (.integer (.ofNat n)) => if n < 1 <<< 64 then some (UInt64.ofNat n) else none
  | _ => none

end BotConsole.Toml.Record
