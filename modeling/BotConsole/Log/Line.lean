import BotConsole.Json.Value
import BotConsole.Log.Filter

namespace BotConsole.Log

structure Event where
  level : Level
  target : String
  message : String
  task : Int

namespace Event

def escape (c : Char) : List Char :=
  match c with
  | '\x1b' => ['\\', 'x', '1', 'b']
  | '\x07' => ['\\', 'x', '0', '7']
  | '\x08' => ['\\', 'x', '0', '8']
  | '\x0c' => ['\\', 'x', '0', 'c']
  | '\x7f' => ['\\', 'x', '7', 'f']
  | c =>
    if 0x80 ≤ c.toNat ∧ c.toNat ≤ 0x9F then
      ['\\', 'u', '\x7b'] ++ Nat.toDigits 16 c.toNat ++ ['\x7d']
    else [c]

def levelName (l : Level) : List Char :=
  l.name.toList.map Char.toUpper

-- The event as a line for people, without the time: the name of the level ends in one column.
def line (e : Event) : String :=
  let level := levelName e.level
  let pad := List.replicate (5 - level.length) ' '
  String.ofList (' ' :: pad ++ level ++ ' ' :: e.target.toList ++ [':', ' '] ++
    e.message.toList.flatMap escape) ++ " task_id=" ++ toString e.task

def value (e : Event) : Json.Value :=
  .object [("level", .text (String.ofList (levelName e.level))), ("target", .text e.target),
    ("fields", .object [("message", .text e.message), ("task_id", .number (.int e.task))])]

end Event

def Filter.pass (f : Filter) (events : List Event) : List Event :=
  events.filter fun e => f.admits e.target e.level

end BotConsole.Log
