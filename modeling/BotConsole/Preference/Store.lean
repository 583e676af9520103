import BotConsole.Dict
import BotConsole.Preference.Slot
import BotConsole.Toml.Document
import BotConsole.Toml.Record

namespace BotConsole.Preference

-- Where preferences are kept: in memory, or in a file that is written anew at every change.
inductive Store where
  | memory (entries : Dict String)
  | file (slot : Slot)

namespace Store

def document (entries : Dict String) : Toml.Document where
  own := entries.entries.map fun (name, value) => (name, .text value)
  sections := []

def ofDocument? (content : String) : Option (Dict String) := do
  let entries ← Toml.read? content
  let pairs ← entries.mapM fun (name, value) => (Toml.Record.text? value).map (name, ·)
  some (.ofPairs pairs)

def entriesOf (slot : Slot) : Except Failure (Dict String) := do
  match ← slot.read with
  | none => .ok .empty
  | some content =>
    match ofDocument? content with
    | some entries => .ok entries
    | none => .error .unreadable

def entries : Store → Except Failure (Dict String)
  | .memory entries => .ok entries
  | .file slot => entriesOf slot

def get (s : Store) (name : String) : Except Failure (Option String) := do
  let entries ← s.entries
  .ok (entries.get? name)

def set (s : Store) (name value : String) : Except Failure Store := do
  let entries ← s.entries
  let new := entries.insert name value
  match s with
  | .memory _ => .ok (.memory new)
  | .file slot =>
    let slot ← slot.write (document new).write
    .ok (.file slot)

end Store

end BotConsole.Preference
