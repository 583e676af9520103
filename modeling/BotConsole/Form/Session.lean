import BotConsole.Form.Rule
import BotConsole.Form.Visibility
import BotConsole.Json.Inspect

namespace BotConsole.Form

open Json

structure Session where
  schema : Schema
  visibility : Visibility
  values : Values
  visible : List String

structure Change where
  values : Values
  visible : List String

namespace Session

def authTypeOf (values : Values) : String :=
  ((values.get? Visibility.authField).bind Value.text?).getD ""

def authType (s : Session) : String :=
  authTypeOf s.values

def visibleItems (s : Session) : Schema :=
  s.schema.visible s.visibility s.authType

def shows (s : Session) (name : String) : Bool :=
  s.visible.contains name

def withValues (s : Session) (values : Values) : Session :=
  let s := { s with values }
  { s with visible := s.visibleItems.map Item.name }

def start (schema : Schema) (visibility : Visibility) : Session :=
  withValues ⟨schema, visibility, .empty, []⟩ schema.defaults

def change (s : Session) : Change :=
  ⟨s.values, s.visible⟩

-- Gives one field a value, whether the schema has it or not.
def set (s : Session) (name : String) (value : Value) : Session × Change :=
  let s := s.withValues (s.values.insert name value)
  (s, s.change)

-- Gives several fields their values in one change; no fields, no change.
def setMany (s : Session) (values : Values) : Session × Option Change :=
  if values.isEmpty then (s, none)
  else
    let s := s.withValues (s.values.overlay values)
    (s, some s.change)

def reset (s : Session) : Session × Change :=
  let s := s.withValues s.schema.defaults
  (s, s.change)

def errors (s : Session) (locale : Locale) : List FieldError :=
  s.visibleItems.errors s.values locale

def inspect (s : Session) : String :=
  "FormSession \x7b items: " ++ toString s.schema.length ++ ", values: " ++
    Text.bracketed "\x7b" (Value.inspectMembers s.values.entries) "\x7d" ++ ", visible: " ++
    Text.bracketed "[" (s.visible.map Text.quoted) "]" ++ " \x7d"

end Session

end BotConsole.Form
