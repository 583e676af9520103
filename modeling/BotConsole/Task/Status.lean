import BotConsole.Json.Reader
import BotConsole.Json.Record
import BotConsole.Task.Failure

namespace BotConsole.Task

open Json

-- Once a task is done an exception says that it failed.
structure Runtime where
  done : Bool
  exception : Option String
  state : Option String
  traceback : Option String
  result : Option Value
  deriving DecidableEq, Inhabited

structure Status where
  id : Option Int
  name : Option String
  runtime : Runtime
  deriving DecidableEq, Inhabited

-- What a server wraps a status in. The status counts only where the code is zero; else the
-- message says what went wrong.
structure Envelope where
  code : Int
  message : String
  status : Option Status

namespace Runtime

def pending : Runtime := ⟨false, none, none, none, none⟩

def succeeded : Runtime := { pending with done := true }

def failed (exception : String) : Runtime :=
  { succeeded with exception := some exception }

-- A blank exception counts as none.
def exceptionMessage (r : Runtime) : Option String :=
  r.exception.filter fun m => !Text.allBlank m

def fieldNames : List String :=
  ["done", "exception", "state", "exception_traceback", "result"]

def ofTree? (t : Tree) : Option Runtime := do
  match ← Record.fields? fieldNames t with
  | [done, exception, state, traceback, result] =>
    some {
      done := ← Record.required Record.bool? done
      exception := ← Record.nullable Record.text? exception
      state := ← Record.nullable Record.text? state
      traceback := ← Record.nullable Record.text? traceback
      result := ← Record.nullable Tree.value? result }
  | _ => none

def shape : Record.Shape :=
  fieldNames.map (·, id)

-- The exception is always written, everything else only where it is there.
def toValue (r : Runtime) : Value :=
  let text (name : String) (t : Option String) := (t.map fun s => (name, Value.text s)).toList
  .object ([("done", .bool r.done), ("exception", (r.exception.map Value.text).getD .null)] ++
    text "state" r.state ++ text "exception_traceback" r.traceback ++
    (r.result.map fun v => ("result", v)).toList)

end Runtime

namespace Status

def fieldNames : List String := ["id", "name", "runtime"]

def ofTree? (t : Tree) : Option Status := do
  match ← Record.fields? fieldNames t with
  | [id, name, runtime] =>
    some {
      id := ← Record.nullable Record.signed64? id
      name := ← Record.nullable Record.text? name
      runtime := ← Record.required Runtime.ofTree? runtime }
  | _ => none

def shape : Record.Shape :=
  fieldNames.map fun name =>
    (name, fun t => if name = "runtime" then Record.readPart Runtime.shape t else t)

def toValue (s : Status) : Value :=
  .object ((s.id.map fun i => ("id", Value.number (.int i))).toList ++
    (s.name.map fun n => ("name", Value.text n)).toList ++ [("runtime", s.runtime.toValue)])

end Status

namespace Envelope

def fieldNames : List String := ["code", "msg", "data"]

-- The status may be left out of an object, but not of a list.
def ofTree? (t : Tree) : Option Envelope := do
  match ← Record.fields? fieldNames t with
  | [code, message, status] =>
    match t, status with
    | .list _, none => none
    | _, _ =>
      some {
        code := ← Record.required Record.signed64? code
        message := ← Record.orElse "" Record.text? message
        status := ← Record.nullable Status.ofTree? status }
  | _ => none

def shape : Record.Shape :=
  fieldNames.map fun name =>
    (name, fun t => if name = "data" then Record.readPart Status.shape t else t)

def deliver (e : Envelope) : Except Failure Status :=
  if e.code != 0 then .error (.ofTransport e.message)
  else match e.status with
    | some s => .ok s
    | none => .error (.ofTransport "Task status response has no data")

-- The message that comes with the answer to a failed request; a blank one counts as none.
-- Nesting is limited in the parts that are read.
def messageOf? (body : List Char) : Option String := do
  let t ← Tree.read? body
  let part := Record.readPart shape t
  if Tree.maxDepth < part.depth then none
  else
    let e ← ofTree? t
    if Text.allBlank e.message then none else some e.message

end Envelope

namespace Status

def invalid (reason : String) : Failure :=
  .ofTransport ("Invalid task status response: " ++ reason)

def mismatch : String := "data did not match any variant of untagged enum StatusBody"

-- The status in a document, in an envelope or by itself. Whatever is no envelope may still be
-- a status, also where it looks like an envelope with a flaw.
def ofTree (t : Tree) : Except Failure Status :=
  match Envelope.ofTree? t with
  | some e => e.deliver
  | none =>
    match ofTree? t with
    | some s => .ok s
    | none => .error (invalid mismatch)

-- All of the body must be readable.
def ofBody (body : List Char) : Except Failure Status :=
  match Tree.read? body with
  | some t =>
    if t.isReadable && t.depth ≤ Tree.maxDepth then ofTree t
    else .error (invalid "the document cannot be read")
  | none => .error (invalid "no JSON document")

end Status

end BotConsole.Task
