import BotConsole.Event.Registry
import BotConsole.Poll.Session

namespace BotConsole.Poll

open BotConsole.Task (Failure Status)

inductive Interest where
  | success
  | failure
  | outcome
  deriving DecidableEq

def Interest.covers : Interest → Verdict → Bool
  | .success, .succeeded => true
  | .failure, .failed _ => true
  | .outcome, _ => true
  | _, _ => false

inductive Command where
  | start (task : Int)
  | reset
  | unsubscribe (tag : String)
  | observe

-- What a listener does may depend on the outcome and on how often it was called before.
structure Listener where
  tag : String
  interest : Interest
  react : Nat → Outcome → List Command

structure Timer where
  number : Nat
  generation : Nat
  task : Int
  begun : Nat
  fetches : Nat
  deriving DecidableEq

def Timer.fire (number : Nat) (t : Timer) : Timer :=
  if t.number == number then { t with fetches := t.fetches + 1 } else t

structure Flight where
  generation : Nat
  task : Int
  due : Nat
  result : Except Failure Status

-- What has happened. A channel passes the states on to those who watch it, who may miss some.
inductive Entry where
  | fetched (task : Int)
  | emitted (outcome : Outcome)
  | called (number : Nat) (tag : String) (interest : Interest) (outcome : Outcome)
  | observed (state : State) (error : Option String) (published : State)
  | published (state : State)
  | seen (tag : String) (state : State)
  | closed (tag : String)

-- One who watches the channel, with the number of the publication last looked at.
structure Watcher where
  tag : String
  lastSeen : Nat

structure Poller where
  interval : Nat
  now : Nat
  isOpen : Bool
  session : Session
  begunTimers : Nat
  timers : List Timer
  fetches : Nat
  flights : List Flight
  subscriptions : Event.Subscriptions Listener
  published : State
  publications : Nat
  watchers : List Watcher
  log : List (Nat × Entry)

-- When the answer to a fetch comes, counted from the fetch, and what it is; by the number of
-- the fetch.
abbrev Source := Nat → Nat × Except Failure Status

namespace Poller

def minInterval : Nat := 1

def defaultInterval : Nat := 1000

-- Times are whole milliseconds from the creation of the poller on.
def new (interval : Nat) : Poller where
  interval := max interval minInterval
  now := 0
  isOpen := true
  session := .initial
  begunTimers := 0
  timers := []
  fetches := 0
  flights := []
  subscriptions := .empty
  published := .waiting
  publications := 0
  watchers := []
  log := []

def record (p : Poller) (e : Entry) : Poller :=
  { p with log := p.log ++ [(p.now, e)] }

def publish (p : Poller) (s : State) : Poller :=
  let p := { p with published := s, publications := p.publications + 1 }
  p.record (.published s)

def stopTimer (p : Poller) : Poller :=
  match p.session.timer with
  | none => p
  | some number => { p with timers := p.timers.filter (·.number != number) }

def start (p : Poller) (task : Int) : Poller :=
  let p := p.stopTimer
  let session := p.session.start task p.begunTimers
  let timer : Timer := ⟨p.begunTimers, session.generation, task, p.now, 0⟩
  let p := { p with session, begunTimers := p.begunTimers + 1, timers := p.timers ++ [timer] }
  p.publish .running

def reset (p : Poller) : Poller :=
  let p := p.stopTimer
  let p := { p with session := p.session.reset }
  p.publish .waiting

def close (p : Poller) : Poller :=
  let p := p.stopTimer
  { p with session := p.session.abandon, isOpen := false }

def subscribe (p : Poller) (l : Listener) : Poller :=
  { p with subscriptions := p.subscriptions.subscribe l.tag l }

def unsubscribe (p : Poller) (tag : String) : Poller :=
  { p with subscriptions := p.subscriptions.cancel tag }

def detach (p : Poller) (tag : String) : Poller :=
  { p with subscriptions := p.subscriptions.detach tag }

def perform (p : Poller) : Command → Poller
  | .start task => p.start task
  | .reset => p.reset
  | .unsubscribe tag => p.unsubscribe tag
  | .observe => p.record (.observed p.session.state p.session.error p.published)

def callsOf (p : Poller) (number : Nat) : Nat :=
  (p.log.filter fun (_, e) => match e with
    | .called n _ _ _ => n == number
    | _ => false).length

def call (p : Poller) (o : Outcome) (number : Nat) (l : Listener) : Poller :=
  if l.interest.covers o.verdict then
    (l.react (p.callsOf number) o).foldl perform (p.record (.called number l.tag l.interest o))
  else p

-- Tells an outcome to the listeners there are now, each once.
def emit (p : Poller) (o : Outcome) : Poller :=
  p.subscriptions.registry.entries.foldl (fun p (number, l) => p.call o number l)
    (p.record (.emitted o))

def commit (p : Poller) (generation : Nat) (task : Int) (result : Except Failure Status) :
    Poller × Option Outcome :=
  match p.session.commit generation task result with
  | (_, none) => (p, none)
  | (session, some outcome) => ({ p.stopTimer with session }, some outcome)

-- Tells the end of a session, unless it was given up since. The state is published after the
-- listeners were called, and only where none of them began another session.
def deliver (p : Poller) (generation : Nat) (o : Outcome) : Poller :=
  if p.session.generation != generation then p
  else
    let p := p.emit o
    if p.session.generation == generation then p.publish p.session.state else p

def apply (p : Poller) (generation : Nat) (task : Int) (result : Except Failure Status) :
    Poller :=
  match p.commit generation task result with
  | (p, none) => p
  | (p, some outcome) => p.deliver generation outcome

-- A timer whose time has come sends a fetch; one whose session is over ends.
def tick (source : Source) (p : Poller) (t : Timer) : Poller :=
  if p.session.isCurrent t.generation then
    let (delay, result) := source p.fetches
    let flight : Flight := ⟨t.generation, t.task, p.now + delay, result⟩
    let timers := p.timers.map (.fire t.number)
    let p := { p with fetches := p.fetches + 1, flights := p.flights ++ [flight], timers }
    p.record (.fetched t.task)
  else { p with timers := p.timers.filter (·.number != t.number) }

def land (p : Poller) (place : Nat) (f : Flight) : Poller :=
  let p := { p with flights := p.flights.eraseIdx place }
  p.apply f.generation f.task f.result

def watch (p : Poller) (tag : String) : Poller :=
  { p with watchers := p.watchers ++ [⟨tag, p.publications⟩] }

def look (isOver : Bool) (p : Poller) (w : Watcher) : Poller :=
  let p := if w.lastSeen == p.publications then p else p.record (.seen w.tag p.published)
  if isOver then p.record (.closed w.tag) else p

-- Lets everybody look who watches. Once the poller is given up and nothing is on its way
-- there is nothing left to see.
def settle (p : Poller) : Poller :=
  let isOver := !p.isOpen && p.flights.isEmpty
  let p := p.watchers.foldl (look isOver) p
  { p with
    watchers := if isOver then [] else p.watchers.map ({ · with lastSeen := p.publications }) }

def inspect (p : Poller) : String :=
  let task := match p.session.task with
    | some i => "Some(" ++ toString i ++ ")"
    | none => "None"
  let places := (toString (1000 + p.interval % 1000)).toList.drop 1
  let places := (places.reverse.dropWhile (· == '0')).reverse
  let interval :=
    if p.interval < 1000 then toString p.interval ++ "ms"
    else toString (p.interval / 1000) ++ (if places.isEmpty then "" else
      "." ++ String.ofList places) ++ "s"
  "AsyncTaskPoller \x7b state: " ++ p.session.state.tag ++ ", task_id: " ++ task ++
    ", interval: " ++ interval ++ " \x7d"

end Poller

end BotConsole.Poll
