import BotConsole.Console.Switch
import BotConsole.Text.Integer

namespace BotConsole.Console

inductive Command where
  | compareVersions (a b : String)
  | checkVersion (latest : String)
  | watchTask (task : Int) (interval : Option UInt64)
  | showDefaults (schema : String)
  | validateValues (schema values : String)
  | listVisible (schema authType : String)
  | listControls (schema : String) (asJson : Bool)
  | checkSchema (schema : String)
  | showSettings
  | validateSettings
  | createSettings
  | showLocale
  | setLocale (code : String)
  deriving DecidableEq, Inhabited

structure Invocation where
  verbose : Bool
  projectFolder : Option String
  baseUrl : Option String
  command : Command
  deriving DecidableEq, Inhabited

namespace Invocation

def anyText : String → Bool := fun _ => true

def isPath (s : String) : Bool := !s.isEmpty

def taskNumber? (s : String) : Option Int :=
  Text.signed64? s.toList

def duration? (s : String) : Option UInt64 :=
  (Text.unsigned64? s.toList).map UInt64.ofNat

def shared : List Switch :=
  [{ name := "verbose", letter := some 'v' },
    { name := "project-dir", accepts := some isPath },
    { name := "base-url", accepts := some anyText }]

def root : Level where
  switches := shared
  operands := []
  commands := ["version", "task", "form", "config", "locale"]
  hasVersion := true

def group (commands : List String) : Level where
  switches := shared
  operands := []
  commands := commands

def leaf (operands : List (String → Bool)) (switches : List Switch := []) : Level where
  switches := shared ++ switches
  operands := operands
  commands := []

def area : String → List (String × Level)
  | "version" => [("compare", leaf [anyText, anyText]),
      ("check", leaf [] [{ name := "latest", accepts := some anyText }])]
  | "task" => [("watch", leaf [fun s => (taskNumber? s).isSome]
      [{ name := "interval-ms", accepts := some fun s => (duration? s).isSome }])]
  | "form" => [("defaults", leaf [isPath]), ("validate", leaf [isPath, isPath]),
      ("visible", leaf [isPath] [{ name := "auth-type", accepts := some anyText }]),
      ("controls", leaf [isPath] [{ name := "json" }]), ("check", leaf [isPath])]
  | "config" => [("show", leaf []), ("validate", leaf []), ("init", leaf [])]
  | "locale" => [("show", leaf []), ("set", leaf [anyText])]
  | _ => []

def alone? : String → Option Command
  | "config" => some .showSettings
  | "locale" => some .showLocale
  | _ => none

def command? (area name : String) (w : Words) : Option Command :=
  match area, name, w.operands with
  | "version", "compare", [a, b] => some (.compareVersions a b)
  | "version", "check", [] => (w.value? "latest").map .checkVersion
  | "task", "watch", [task] =>
    (taskNumber? task).map (.watchTask · ((w.value? "interval-ms").bind duration?))
  | "form", "defaults", [schema] => some (.showDefaults schema)
  | "form", "validate", [schema, values] => some (.validateValues schema values)
  | "form", "visible", [schema] =>
    some (.listVisible schema ((w.value? "auth-type").getD ""))
  | "form", "controls", [schema] => some (.listControls schema (w.has "json"))
  | "form", "check", [schema] => some (.checkSchema schema)
  | "config", "show", [] => some .showSettings
  | "config", "validate", [] => some .validateSettings
  | "config", "init", [] => some .createSettings
  | "locale", "show", [] => some .showLocale
  | "locale", "set", [code] => some (.setLocale code)
  | _, _, _ => none

-- Of a switch that stands at several levels the last one counts.
def ofWords (levels : List Words) (command : Command) : Invocation where
  verbose := levels.any (·.has "verbose")
  projectFolder := levels.reverse.findSome? (·.value? "project-dir")
  baseUrl := levels.reverse.findSome? (·.value? "base-url")
  command := command

def ofArguments (arguments : List String) : Except Stop Invocation := do
  let top ← root.read false {} arguments
  match top.next with
  | none => .error .misuse
  | some (name, rest) =>
    let commands := area name
    let middle ← (group (commands.map (·.1))).read false {} rest
    match middle.next with
    | none =>
      match alone? name with
      | some command => .ok (ofWords [top, middle] command)
      | none => .error .misuse
    | some (verb, rest) =>
      match commands.lookup verb with
      | none => .error .misuse
      | some level =>
        let last ← level.read false {} rest
        match command? name verb last with
        | some command => .ok (ofWords [top, middle, last] command)
        | none => .error .misuse

end Invocation

end BotConsole.Console
