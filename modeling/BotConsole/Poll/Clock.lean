import BotConsole.Poll.Poller

namespace BotConsole.Poll

inductive Due where
  | tick (t : Timer)
  | landing (place : Nat) (f : Flight)

namespace Timer

def due (interval : Nat) (t : Timer) : Nat :=
  t.begun + (t.fetches + 1) * interval

end Timer

namespace Poller

-- The earlier of two events, the first one where they coincide.
def earlier (a b : Option (Nat × Due)) : Option (Nat × Due) :=
  match a, b with
  | some x, some y => if y.1 < x.1 then some y else some x
  | some x, none => some x
  | none, y => y

def next? (p : Poller) : Option (Nat × Due) :=
  let landings := p.flights.zipIdx.map fun (f, place) => some (f.due, Due.landing place f)
  let ticks := p.timers.map fun t => some (t.due p.interval, Due.tick t)
  (landings ++ ticks).foldl earlier none

def happen (source : Source) (p : Poller) : Due → Poller
  | .tick t => p.tick source t
  | .landing place f => p.land place f

-- Everything that is due by `time`, with those who watch looking at the end of each moment.
-- Nothing is left out when `fuel` covers the events.
def advance (source : Source) (time : Nat) : Nat → Poller → Poller
  | 0, p => p
  | fuel + 1, p =>
    match p.next? with
    | none => p
    | some (due, event) =>
      if time < due then p
      else
        let p := if p.now < due then { p.settle with now := due } else p
        advance source time fuel (p.happen source event)

-- A bound on the events until `time`: a fetch and its landing in every moment, and the
-- landings of what is already on its way.
def fuel (p : Poller) (time : Nat) : Nat :=
  2 * (time + 1 - p.now) + p.flights.length + p.timers.length

def sleep (source : Source) (p : Poller) (duration : Nat) : Poller :=
  let time := p.now + duration
  let p := (p.advance source time (p.fuel time)).settle
  { p with now := time }

-- Waits until a state other than `running` is published, until `time` at the latest. The
-- second part is what ended the waiting, none when the time was over.
def awaitUntil (source : Source) (time : Nat) : Nat → Poller → Poller × Option State
  | 0, p => (p.settle, none)
  | fuel + 1, p =>
    let p := (p.advance source p.now (p.fuel p.now)).settle
    if p.published != .running then (p, some p.published)
    else match p.next? with
      | none => ({ p with now := time }, none)
      | some (due, _) =>
        if time < due then ({ p with now := time }, none)
        else awaitUntil source time fuel { p with now := due }

def await (source : Source) (p : Poller) (limit : Nat) : Poller × Option State :=
  let time := p.now + limit
  p.awaitUntil source time (p.fuel time)

end Poller

end BotConsole.Poll
