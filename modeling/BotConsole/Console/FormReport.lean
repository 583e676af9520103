import BotConsole.Console.Report
import BotConsole.Disk
import BotConsole.Form.Control
import BotConsole.Form.Format
import BotConsole.Form.Session
import BotConsole.Json.Reader
import BotConsole.Json.Writer
import BotConsole.Language

namespace BotConsole.Console.FormReport

open Form

def schema (disk : Disk) (folder : Place) (path : String) : Except String Schema :=
  match (disk.readPath? folder path).bind (Schema.ofText? (.ofPath path) ·.toList) with
  | some s => .ok s
  | none => .error ("Failed to load form schema: " ++ path)

def values (disk : Disk) (folder : Place) (path : String) : Except String Values :=
  match disk.readPath? folder path with
  | none => .error ("Failed to read values file: " ++ path)
  | some text =>
    match Json.Value.read? text.toList with
    | some (.object members) => .ok (.ofPairs members)
    | _ => .error ("Values file must be a JSON object: " ++ path)

-- A form that has a field for the authentication type shows only the fields that go with it.
def session (s : Schema) : Session :=
  if s.any (·.name == Visibility.authField) then .start s (.grouped Visibility.sharedFields)
  else .start s .all

def defaults (s : Schema) : Report :=
  .ofLines [(Json.Value.object s.defaults.entries).pretty]

def validation (locale : Locale) (s : Schema) (v : Values) : Report :=
  match ((session s).setMany v).1.errors locale with
  | [] => .ofLines ["All fields are valid."]
  | errors =>
    { Report.ofLines (errors.map ("  ✗ " ++ ·.line)) with
      ending := .failed (FieldError.summary errors) }

def visible (authType : String) (s : Schema) : Report :=
  .ofLines ((s.visible (.grouped Visibility.sharedFields) authType).map (·.name))

-- A name with blanks behind it up to a width. The width is counted in characters.
def padded (width : Nat) (name : String) : String :=
  String.ofList (name.toList ++ List.replicate (width - name.length) ' ')

def controlLine (width : Nat) (r : Rendered) : String :=
  padded width r.name ++ (if r.required then " * " else "   ") ++ r.control.describe ++ "  " ++
    r.label

-- The lines leave room for the name with the most bytes in UTF-8.
def controls (locale : Locale) (asJson : Bool) (s : Schema) : Report :=
  let fields := s.render locale
  if asJson then .ofLines [(Json.Value.list (fields.map Rendered.toValue)).pretty]
  else
    let width := fields.foldl (fun n r => max n r.name.utf8ByteSize) 0
    .ofLines (fields.map (controlLine width))

def check (s : Schema) : Report :=
  match s.flaws with
  | [] => .ofLines ["Schema is valid (" ++ toString s.length ++ " fields)."]
  | flaws => .ofLines ("Schema warnings:" :: flaws.map ("  - " ++ ·.message))

def onSuccess {α : Type} (loaded : Except String α) (report : α → Report) : Report :=
  match loaded with
  | .ok x => report x
  | .error message => .failure message

end BotConsole.Console.FormReport
