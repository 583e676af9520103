namespace BotConsole.Preference

inductive Failure where
  | unreachable
  | unreadable
  deriving DecidableEq, Inhabited, Repr

inductive Slot where
  | text (content : String)
  -- Nothing yet, but a file can be made here.
  | vacant
  -- Nothing, and nothing can be made here.
  | sealed
  | folder
  deriving DecidableEq, Inhabited

namespace Slot

def content? : Slot → Option String
  | .text content => some content
  | _ => none

def read : Slot → Except Failure (Option String)
  | .text content => .ok (some content)
  | .vacant | .sealed => .ok none
  | .folder => .error .unreachable

def write (content : String) : Slot → Except Failure Slot
  | .text _ | .vacant => .ok (.text content)
  | .sealed | .folder => .error .unreachable

end Slot

end BotConsole.Preference
