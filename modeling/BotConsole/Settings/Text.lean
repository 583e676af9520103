import BotConsole.Settings.Basic
import BotConsole.Toml.Document
import BotConsole.Toml.Record

namespace BotConsole.Settings

open Toml (Scalar Value)
open Toml.Record

def integer (n : UInt64) : Scalar :=
  .integer n.toNat

namespace Backend

def fields : List String :=
  ["base_url", "token", "task_status_path", "timeout_secs"]

-- A token is left out where there is none.
def assignments (b : Backend) : List (String × Scalar) :=
  ("base_url", .text b.baseUrl) :: (b.token.map fun token => ("token", .text token)).toList ++
    [("task_status_path", .text b.taskStatusPath), ("timeout_secs", integer b.timeoutSecs)]

def ofValue? (v : Value) : Option Backend := do
  match ← fields? fields v with
  | [baseUrl, token, taskStatusPath, timeoutSecs] =>
    let d : Backend := {}
    some {
      baseUrl := ← orElse d.baseUrl text? baseUrl
      token := ← orElse d.token (fun v => (text? v).map some) token
      taskStatusPath := ← orElse d.taskStatusPath text? taskStatusPath
      timeoutSecs := ← orElse d.timeoutSecs unsigned64? timeoutSecs }
  | _ => none

end Backend

namespace Polling

def fields : List String :=
  ["interval_ms"]

def assignments (p : Polling) : List (String × Scalar) :=
  [("interval_ms", integer p.intervalMs)]

def ofValue? (v : Value) : Option Polling := do
  match ← fields? fields v with
  | [intervalMs] =>
    let d : Polling := {}
    some { intervalMs := ← orElse d.intervalMs unsigned64? intervalMs }
  | _ => none

end Polling

namespace Display

def fields : List String :=
  ["locale"]

def assignments (d : Display) : List (String × Scalar) :=
  [("locale", .text d.locale)]

def ofValue? (v : Value) : Option Display := do
  match ← fields? fields v with
  | [locale] =>
    let d : Display := {}
    some { locale := ← orElse d.locale text? locale }
  | _ => none

end Display

namespace Logging

def fields : List String :=
  ["level", "json", "file"]

def assignments (l : Logging) : List (String × Scalar) :=
  [("level", .text l.level), ("json", .bool l.json), ("file", .bool l.file)]

def ofValue? (v : Value) : Option Logging := do
  match ← fields? fields v with
  | [level, json, file] =>
    let d : Logging := {}
    some {
      level := ← orElse d.level text? level
      json := ← orElse d.json bool? json
      file := ← orElse d.file bool? file }
  | _ => none

end Logging

def sections : List String :=
  ["backend", "poller", "ui", "logging"]

def document (s : Settings) : Toml.Document where
  own := []
  sections := [("backend", s.backend.assignments), ("poller", s.polling.assignments),
    ("ui", s.display.assignments), ("logging", s.logging.assignments)]

def toText (s : Settings) : String :=
  s.document.write

-- The settings of a document's entries; what is left out keeps its default.
def ofEntries? (entries : List (String × Value)) : Option Settings := do
  match ← fields? sections (.table entries) with
  | [backend, polling, display, logging] =>
    some {
      backend := ← orElse {} Backend.ofValue? backend
      polling := ← orElse {} Polling.ofValue? polling
      display := ← orElse {} Display.ofValue? display
      logging := ← orElse {} Logging.ofValue? logging }
  | _ => none

def ofText? (text : String) : Option Settings :=
  (Toml.read? text).bind ofEntries?

end BotConsole.Settings
