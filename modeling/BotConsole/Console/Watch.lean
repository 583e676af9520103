import BotConsole.Catalog
import BotConsole.Console.Report
import BotConsole.Poll.Clock
import BotConsole.Task.Client

namespace BotConsole.Console

abbrev Server := Nat → Task.Reply

structure Watch where
  task : Int
  client : Task.Client
  -- The milliseconds between two fetches.
  interval : Nat
  -- The number of fetches after which the user interrupts the watching.
  patience : Nat
  locale : Locale
  -- The milliseconds until the server replies, for each request.
  delay : Nat → Nat := fun _ => 0

namespace Watch

-- The milliseconds that a fetch takes: at most the time that the client gives it, and none if there
-- is nothing to send.
def duration (w : Watch) (n : Nat) : Nat :=
  match w.client.request w.task with
  | .error _ => 0
  | .ok _ => min (w.delay n) w.client.deadline

-- What the client sees of a server: a reply that comes too late is none.
def received (w : Watch) (server : Server) : Server := fun n =>
  if w.delay n < w.client.deadline then server n else .refused

def source (w : Watch) (server : Server) : Poll.Source := fun n =>
  (w.duration n, (w.client.fetch w.task (w.received server n)).1)

def started (w : Watch) : Poll.Poller :=
  let silent (tag : String) (interest : Poll.Interest) : Poll.Listener :=
    ⟨tag, interest, fun _ _ => []⟩
  (((Poll.Poller.new w.interval).subscribe (silent "success" .success)).subscribe
    (silent "failure" .failure)).start w.task

def run (w : Watch) (server : Server) : Poll.Poller × Option Poll.State :=
  w.started.await (w.source server) (w.started.interval * w.patience)

def headline (w : Watch) : String :=
  "Watching task " ++ toString w.task ++ " at " ++ w.client.statusUrl w.task ++ " (every " ++
    toString w.started.interval ++ " ms)"

def successLine? (w : Watch) : Poll.Entry → Option String
  | .called _ _ .success _ => some ("✓ " ++ Message.taskSucceeded.text w.locale)
  | _ => none

def failureLine? (w : Watch) : Poll.Entry → Option String
  | .called _ _ .failure ⟨_, .failed f⟩ =>
    some ("✗ " ++ Message.taskFailed.text w.locale ++ ": " ++ f.message)
  | _ => none

def ending (w : Watch) (p : Poll.Poller) : Option Poll.State → Ending
  | some .success => .done
  | some .error =>
    .failed ("Task " ++ toString w.task ++ " failed: " ++
      p.session.error.getD Task.Failure.unknown)
  | some state =>
    .failed ("Polling of task " ++ toString w.task ++ " stopped in state " ++ state.name)
  | none => .failed ("Interrupted while watching task " ++ toString w.task)

def report (w : Watch) (server : Server) : Report :=
  let (p, state) := w.run server
  let entries := p.log.map (·.2)
  { output := Report.unlines (w.headline :: entries.filterMap w.successLine?)
    notices := entries.filterMap w.failureLine?
    ending := w.ending p state }

def sent (w : Watch) (server : Server) : List Task.Request :=
  (List.range (w.run server).1.fetches).filterMap fun n => (w.client.fetch w.task (server n)).2

def requests (w : Watch) (server : Server) : Nat :=
  (w.sent server).length

end Watch

end BotConsole.Console
