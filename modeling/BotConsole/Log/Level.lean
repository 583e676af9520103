import BotConsole.Text.Integer
import BotConsole.Text.Letter

namespace BotConsole.Log

-- An event has one of the levels other than `off`.
inductive Level where
  | off
  | error
  | warn
  | info
  | debug
  | trace
  deriving DecidableEq, Inhabited, Repr

namespace Level

def all : List Level :=
  [.off, .error, .warn, .info, .debug, .trace]

def rank : Level → Nat
  | .off => 0
  | .error => 1
  | .warn => 2
  | .info => 3
  | .debug => 4
  | .trace => 5

def name : Level → String
  | .off => "off"
  | .error => "error"
  | .warn => "warn"
  | .info => "info"
  | .debug => "debug"
  | .trace => "trace"

def admits (l event : Level) : Bool :=
  event.rank ≤ l.rank

def ofText? (s : List Char) : Option Level :=
  match (Text.unsigned64? s).bind (all[·]?) with
  | some l => some l
  | none => all.find? fun l => l.name.toList == Text.lowerAscii s

end Level

end BotConsole.Log
