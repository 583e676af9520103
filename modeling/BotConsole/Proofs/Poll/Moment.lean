import BotConsole.Proofs.Poll.History

namespace BotConsole.Poll

open BotConsole.Task (Failure Status)

-- What an emission still has to do.
inductive Pending where
  | call (session : Nat) (outcome : Outcome) (number : Nat) (listener : Listener)
  | command (c : Command)
  | publish (generation : Nat)

def Pending.calls (session : Nat) (o : Outcome) (entries : List (Nat × Listener)) :
    List Pending :=
  entries.map fun (number, l) => .call session o number l

-- A poller in the middle of a run, with what an emission still has to do before anything else
-- can happen.
structure Moment where
  poller : Poller
  agenda : List Pending
  carried : List (Nat × Flight)
  history : History

-- What can happen to a poller. Where an emission is going on, all it can do is go on.
inductive Event where
  | work
  | start (task : Int)
  | reset
  | close
  | subscribe (listener : Listener)
  | unsubscribe (tag : String)
  | detach (tag : String)
  | watch (tag : String)
  | settle
  | elapse (duration : Nat)
  | tick (number : Nat)
  | land (place : Nat)

namespace Moment

def initial (interval : Nat) : Moment :=
  ⟨.new interval, [], [], []⟩

def work (m : Moment) : Pending → Moment
  | .call session o number l =>
    if l.interest.covers o.verdict then
      { m with
        poller := m.poller.record (.called number l.tag l.interest o)
        agenda := (l.react (m.poller.callsOf number) o).map .command ++ m.agenda
        history := m.history ++ [.called session number l.interest o] }
    else m
  | .command c =>
    { m with
      poller := m.poller.perform c
      history := m.history ++ (Fact.ofCommand? c).toList }
  | .publish generation =>
    if m.poller.session.generation == generation then
      { m with poller := m.poller.publish m.poller.session.state }
    else m

-- A timer fires; the fetch it sends belongs to the session the timer was started for.
def tick (source : Source) (m : Moment) (t : Timer) : Moment :=
  let poller := m.poller.tick source t
  let sent := poller.flights.drop m.poller.flights.length
  { m with poller, carried := m.carried ++ sent.map (t.number, ·) }

def emit (m : Moment) (session generation : Nat) (o : Outcome) : Moment :=
  let calls := Pending.calls session o m.poller.subscriptions.registry.entries
  { m with
    poller := m.poller.record (.emitted o)
    agenda := calls ++ [.publish generation]
    history := m.history ++
      [.emitted session o m.poller.session.state m.poller.session.error] }

def land (m : Moment) (place session : Nat) (f : Flight) : Moment :=
  let poller := { m.poller with flights := m.poller.flights.eraseIdx place }
  let m := { m with
    carried := m.carried.eraseIdx place
    history := m.history ++ [Fact.landed session f.result] }
  match poller.commit f.generation f.task f.result with
  | (poller, none) => { m with poller }
  | (poller, some o) => { m with poller }.emit session f.generation o

def accept (source : Source) (m : Moment) : Event → Moment
  | .work => m
  | .start task =>
    if m.poller.isOpen then
      { m with poller := m.poller.start task, history := m.history ++ [.started task] }
    else m
  | .reset =>
    if m.poller.isOpen then
      { m with poller := m.poller.reset, history := m.history ++ [.reset] }
    else m
  | .close =>
    if m.poller.isOpen then
      { m with poller := m.poller.close, history := m.history ++ [.closed] }
    else m
  | .subscribe l => if m.poller.isOpen then { m with poller := m.poller.subscribe l } else m
  | .unsubscribe tag => { m with poller := m.poller.unsubscribe tag }
  | .detach tag => { m with poller := m.poller.detach tag }
  | .watch tag => if m.poller.isOpen then { m with poller := m.poller.watch tag } else m
  | .settle => { m with poller := m.poller.settle }
  | .elapse duration => { m with poller := { m.poller with now := m.poller.now + duration } }
  | .tick number =>
    match m.poller.timers.find? (·.number == number) with
    | some t => m.tick source t
    | none => m
  | .land place =>
    match m.carried[place]? with
    | some (session, f) => m.land place session f
    | none => m

def step (source : Source) (m : Moment) (e : Event) : Moment :=
  match m.agenda, e with
  | [], e => m.accept source e
  | next :: rest, .work => { m with agenda := rest }.work next
  | _ :: _, _ => m

def run (source : Source) (m : Moment) (events : List Event) : Moment :=
  events.foldl (step source) m

-- What a step can do. Where an emission is going on only work has an effect, and it is that of
-- the next thing on the agenda.
inductive Step (source : Source) (m : Moment) : Event → Moment → Prop where
  | idle (e : Event) : Step source m e m
  | skip {next : Pending} {rest : List Pending} (ha : m.agenda = next :: rest)
    (hn : next ≠ .publish m.poller.session.generation) :
    Step source m .work { m with agenda := rest }
  | call {session number : Nat} {o : Outcome} {l : Listener} {rest : List Pending}
    (ha : m.agenda = .call session o number l :: rest)
    (hcovers : l.interest.covers o.verdict = true) :
    Step source m .work { m with
      poller := m.poller.record (.called number l.tag l.interest o)
      agenda := (l.react (m.poller.callsOf number) o).map .command ++ rest
      history := m.history ++ [.called session number l.interest o] }
  | command {c : Command} {rest : List Pending} (ha : m.agenda = .command c :: rest) :
    Step source m .work { m with
      poller := m.poller.perform c
      agenda := rest
      history := m.history ++ (Fact.ofCommand? c).toList }
  | publish {generation : Nat} {rest : List Pending} (ha : m.agenda = .publish generation :: rest)
    (hg : m.poller.session.generation = generation) :
    Step source m .work
      { m with poller := m.poller.publish m.poller.session.state, agenda := rest }
  | start (task : Int) (ha : m.agenda = []) (ho : m.poller.isOpen = true) :
    Step source m (.start task)
      { m with poller := m.poller.start task, history := m.history ++ [.started task] }
  | reset (ha : m.agenda = []) (ho : m.poller.isOpen = true) :
    Step source m .reset { m with poller := m.poller.reset, history := m.history ++ [.reset] }
  | close (ha : m.agenda = []) (ho : m.poller.isOpen = true) :
    Step source m .close { m with poller := m.poller.close, history := m.history ++ [.closed] }
  | subscribe (l : Listener) (ha : m.agenda = []) (ho : m.poller.isOpen = true) :
    Step source m (.subscribe l) { m with poller := m.poller.subscribe l }
  | unsubscribe (tag : String) (ha : m.agenda = []) :
    Step source m (.unsubscribe tag) { m with poller := m.poller.unsubscribe tag }
  | detach (tag : String) (ha : m.agenda = []) :
    Step source m (.detach tag) { m with poller := m.poller.detach tag }
  | watch (tag : String) (ha : m.agenda = []) (ho : m.poller.isOpen = true) :
    Step source m (.watch tag) { m with poller := m.poller.watch tag }
  | settle (ha : m.agenda = []) : Step source m .settle { m with poller := m.poller.settle }
  | elapse (duration : Nat) (ha : m.agenda = []) :
    Step source m (.elapse duration)
      { m with poller := { m.poller with now := m.poller.now + duration } }
  | tick {t : Timer} (ha : m.agenda = []) (ht : t ∈ m.poller.timers) :
    Step source m (.tick t.number) (m.tick source t)
  | land {place session : Nat} {f : Flight} (ha : m.agenda = [])
    (hf : m.carried[place]? = some (session, f)) :
    Step source m (.land place) (m.land place session f)

theorem step_work (source : Source) {m : Moment} {next : Pending} {rest : List Pending}
    (ha : m.agenda = next :: rest) :
    Step source m .work ({ m with agenda := rest }.work next) := by
  cases next with
  | call session o number l =>
    simp only [work]
    split
    · exact .call ha ‹_›
    · exact .skip ha nofun
  | command c => exact .command ha
  | publish generation =>
    simp only [work]
    split
    · exact .publish ha (beq_iff_eq.mp ‹_›)
    · rename_i hg
      refine .skip ha fun hn => hg ?_
      rw [Pending.publish.inj hn]
      exact beq_self_eq_true _

theorem step_accept (source : Source) {m : Moment} (ha : m.agenda = []) (e : Event) :
    Step source m e (m.accept source e) := by
  cases e with
  | work => exact .idle .work
  | start task =>
    simp only [accept]
    split
    · exact .start task ha ‹_›
    · exact .idle _
  | reset =>
    simp only [accept]
    split
    · exact .reset ha ‹_›
    · exact .idle _
  | close =>
    simp only [accept]
    split
    · exact .close ha ‹_›
    · exact .idle _
  | subscribe l =>
    simp only [accept]
    split
    · exact .subscribe l ha ‹_›
    · exact .idle _
  | unsubscribe tag => exact .unsubscribe tag ha
  | detach tag => exact .detach tag ha
  | watch tag =>
    simp only [accept]
    split
    · exact .watch tag ha ‹_›
    · exact .idle _
  | settle => exact .settle ha
  | elapse duration => exact .elapse duration ha
  | tick number =>
    simp only [accept]
    split
    · rename_i t hfind
      obtain rfl : t.number = number := by simpa using List.find?_some hfind
      exact .tick ha (List.mem_of_find?_eq_some hfind)
    · exact .idle _
  | land place =>
    simp only [accept]
    split
    · exact .land ha ‹_›
    · exact .idle _

-- Every step is one of them, which is all that an invariant has to be shown for.
theorem step_cases (source : Source) (m : Moment) (e : Event) :
    Step source m e (m.step source e) := by
  unfold step
  split
  · exact step_accept source ‹_› _
  · exact step_work source ‹_›
  · exact .idle _

end Moment

end BotConsole.Poll
