import BotConsole.Poll.Clock
import BotConsole.Proofs.Poll.Consistent

namespace BotConsole.Poll

namespace Moment

variable {source : Source} {m m' : Moment}

theorem run_append (source : Source) (m : Moment) (events more : List Event) :
    m.run source (events ++ more) = (m.run source events).run source more := by
  simp [run]

theorem run_concat (source : Source) (m : Moment) (events : List Event) (e : Event) :
    m.run source (events ++ [e]) = (m.run source events).step source e := by
  simp [run]

theorem step_of_idle (ha : m.agenda = []) (e : Event) : m.step source e = m.accept source e := by
  simp [step, ha]

def Reached (source : Source) (interval : Nat) (m : Moment) : Prop :=
  ∃ events, (initial interval).run source events = m

theorem Reached.consistent {interval : Nat} (hm : Reached source interval m) : m.Consistent := by
  obtain ⟨events, rfl⟩ := hm
  exact consistent_run source (consistent_initial interval) events

theorem Reached.run {interval : Nat} (hm : Reached source interval m) (events : List Event) :
    Reached source interval (m.run source events) := by
  obtain ⟨before, rfl⟩ := hm
  exact ⟨before ++ events, run_append source _ before events⟩

theorem Reached.accept {interval : Nat} (hm : Reached source interval m) (ha : m.agenda = [])
    (e : Event) : Reached source interval (m.accept source e) := by
  rw [← step_of_idle ha]
  exact hm.run [e]

def LeadsTo (source : Source) (m m' : Moment) : Prop :=
  ∃ n, m.run source (List.replicate n .work) = m'

theorem LeadsTo.refl (source : Source) (m : Moment) : LeadsTo source m m := ⟨0, rfl⟩

theorem LeadsTo.trans {m'' : Moment} (h : LeadsTo source m m') (h' : LeadsTo source m' m'') :
    LeadsTo source m m'' := by
  obtain ⟨n, rfl⟩ := h
  obtain ⟨n', rfl⟩ := h'
  exact ⟨n + n', by rw [← List.replicate_append_replicate, run_append]⟩

theorem LeadsTo.work (source : Source) {next : Pending} {rest : List Pending}
    (ha : m.agenda = next :: rest) : LeadsTo source m ({ m with agenda := rest }.work next) :=
  ⟨1, by simp [run, step, ha]⟩

theorem Reached.leadsTo {interval : Nat} (hm : Reached source interval m)
    (h : LeadsTo source m m') : Reached source interval m' := by
  obtain ⟨n, rfl⟩ := h
  exact hm.run _

theorem leadsTo_commands (source : Source) (commands : List Command) (rest : List Pending)
    (m : Moment) (ha : m.agenda = commands.map .command ++ rest) :
    ∃ history, LeadsTo source m
      { m with poller := commands.foldl Poller.perform m.poller, agenda := rest, history } := by
  -- the poller goes on as in `emit`; which facts are noted on the way does not matter here
  induction commands generalizing m with
  | nil =>
    obtain rfl : m.agenda = rest := ha
    exact ⟨m.history, 0, rfl⟩
  | cons c commands ih =>
    have hwork := LeadsTo.work source ha
    obtain ⟨history, hrest⟩ :=
      ih ({ m with agenda := commands.map Pending.command ++ rest }.work (.command c)) rfl
    exact ⟨history, hwork.trans hrest⟩

theorem leadsTo_call (source : Source) (session : Nat) (o : Outcome) (number : Nat) (l : Listener)
    (rest : List Pending) (m : Moment) (ha : m.agenda = .call session o number l :: rest) :
    ∃ history, LeadsTo source m
      { m with poller := m.poller.call o number l, agenda := rest, history } := by
  have hwork := LeadsTo.work source ha
  simp only [Moment.work] at hwork
  unfold Poller.call
  by_cases hcovers : l.interest.covers o.verdict = true
  · rw [if_pos hcovers] at hwork ⊢
    obtain ⟨history, hrest⟩ := leadsTo_commands source (l.react (m.poller.callsOf number) o) rest
      { m with
        poller := m.poller.record (.called number l.tag l.interest o)
        agenda := (l.react (m.poller.callsOf number) o).map .command ++ rest
        history := m.history ++ [.called session number l.interest o] } rfl
    exact ⟨history, hwork.trans hrest⟩
  · rw [if_neg hcovers] at hwork ⊢
    exact ⟨m.history, hwork⟩

theorem leadsTo_calls (source : Source) (session : Nat) (o : Outcome)
    (entries : List (Nat × Listener)) (rest : List Pending) (m : Moment)
    (ha : m.agenda = Pending.calls session o entries ++ rest) :
    ∃ history, LeadsTo source m
      { m with
        poller := entries.foldl (fun p (number, l) => p.call o number l) m.poller
        agenda := rest, history } := by
  induction entries generalizing m with
  | nil =>
    obtain rfl : m.agenda = rest := ha
    exact ⟨m.history, 0, rfl⟩
  | cons entry entries ih =>
    obtain ⟨number, l⟩ := entry
    have hcalls := leadsTo_call source session o number l
      (Pending.calls session o entries ++ rest) m ha
    obtain ⟨history, hcall⟩ := hcalls
    obtain ⟨history', hrest⟩ := ih
      { m with
        poller := m.poller.call o number l
        agenda := Pending.calls session o entries ++ rest, history } rfl
    exact ⟨history', hcall.trans hrest⟩

-- A fetch that comes back does to the poller in small steps what it does in one.
theorem leadsTo_land (source : Source) (m : Moment) (ha : m.agenda = []) (place session : Nat)
    (f : Flight) :
    ∃ history, LeadsTo source (m.land place session f)
      { m with
        poller := m.poller.land place f
        carried := m.carried.eraseIdx place, history } := by
  unfold land Poller.land Poller.apply
  generalize { m.poller with flights := m.poller.flights.eraseIdx place } = p
  rcases hc : p.commit f.generation f.task f.result with ⟨q, _ | o⟩ <;> simp only [hc]
  · exact ⟨_, .refl source _⟩
  · have hg := Poller.generation_of_commit hc
    let told : Moment := emit { m with
      poller := q, carried := m.carried.eraseIdx place
      history := m.history ++ [.landed session f.result] } session f.generation o
    obtain ⟨history, hcalls⟩ : ∃ history, LeadsTo source told
        { told with poller := q.emit o, agenda := [.publish f.generation], history } :=
      leadsTo_calls source session o q.subscriptions.registry.entries [.publish f.generation] told
        (by simp [told, emit])
    refine ⟨history, (hcalls.trans (.work source rfl)).trans ⟨0, ?_⟩⟩
    by_cases hr : (q.emit o).session.generation = f.generation
    · simp [run, Moment.work, Poller.deliver, hg, hr, ha, told, emit]
    · simp [run, Moment.work, Poller.deliver, hg, hr, ha, told, emit]

end Moment

namespace Poller

-- The pollers that calls from outside, ticks and answers lead to, in any order.
inductive Reachable (source : Source) (interval : Nat) : Poller → Prop where
  | new : Reachable source interval (.new interval)
  | start {p : Poller} (task : Int) (hp : Reachable source interval p) (ho : p.isOpen = true) :
    Reachable source interval (p.start task)
  | reset {p : Poller} (hp : Reachable source interval p) (ho : p.isOpen = true) :
    Reachable source interval p.reset
  | close {p : Poller} (hp : Reachable source interval p) (ho : p.isOpen = true) :
    Reachable source interval p.close
  | subscribe {p : Poller} (l : Listener) (hp : Reachable source interval p)
    (ho : p.isOpen = true) : Reachable source interval (p.subscribe l)
  | unsubscribe {p : Poller} (tag : String) (hp : Reachable source interval p) :
    Reachable source interval (p.unsubscribe tag)
  | detach {p : Poller} (tag : String) (hp : Reachable source interval p) :
    Reachable source interval (p.detach tag)
  | watch {p : Poller} (tag : String) (hp : Reachable source interval p) (ho : p.isOpen = true) :
    Reachable source interval (p.watch tag)
  | settle {p : Poller} (hp : Reachable source interval p) : Reachable source interval p.settle
  | elapse {p : Poller} (duration : Nat) (hp : Reachable source interval p) :
    Reachable source interval { p with now := p.now + duration }
  | tick {p : Poller} (t : Timer) (hp : Reachable source interval p) (ht : t ∈ p.timers) :
    Reachable source interval (p.tick source t)
  | land {p : Poller} (place : Nat) (f : Flight) (hp : Reachable source interval p)
    (hf : p.flights[place]? = some f) : Reachable source interval (p.land place f)

theorem Reachable.exists_reached {source : Source} {interval : Nat} {p : Poller}
    (hp : Reachable source interval p) :
    ∃ m, Moment.Reached source interval m ∧ m.agenda = [] ∧ m.poller = p := by
  induction hp with
  | new => exact ⟨.initial interval, ⟨[], rfl⟩, rfl, rfl⟩
  | start task _ ho ih =>
    obtain ⟨m, hm, ha, rfl⟩ := ih
    exact ⟨_, hm.accept ha (.start task), by simp [Moment.accept, ho, ha]⟩
  | reset _ ho ih =>
    obtain ⟨m, hm, ha, rfl⟩ := ih
    exact ⟨_, hm.accept ha .reset, by simp [Moment.accept, ho, ha]⟩
  | close _ ho ih =>
    obtain ⟨m, hm, ha, rfl⟩ := ih
    exact ⟨_, hm.accept ha .close, by simp [Moment.accept, ho, ha]⟩
  | subscribe l _ ho ih =>
    obtain ⟨m, hm, ha, rfl⟩ := ih
    exact ⟨_, hm.accept ha (.subscribe l), by simp [Moment.accept, ho, ha]⟩
  | unsubscribe tag _ ih =>
    obtain ⟨m, hm, ha, rfl⟩ := ih
    exact ⟨_, hm.accept ha (.unsubscribe tag), ha, rfl⟩
  | detach tag _ ih =>
    obtain ⟨m, hm, ha, rfl⟩ := ih
    exact ⟨_, hm.accept ha (.detach tag), ha, rfl⟩
  | watch tag _ ho ih =>
    obtain ⟨m, hm, ha, rfl⟩ := ih
    exact ⟨_, hm.accept ha (.watch tag), by simp [Moment.accept, ho, ha]⟩
  | settle _ ih =>
    obtain ⟨m, hm, ha, rfl⟩ := ih
    exact ⟨_, hm.accept ha .settle, ha, rfl⟩
  | elapse duration _ ih =>
    obtain ⟨m, hm, ha, rfl⟩ := ih
    exact ⟨_, hm.accept ha (.elapse duration), ha, rfl⟩
  | tick t _ ht ih =>
    obtain ⟨m, hm, ha, rfl⟩ := ih
    refine ⟨_, hm.accept ha (.tick t.number), ?_⟩
    simp [Moment.accept, hm.consistent.sound.eq_timer ht, Moment.tick, ha]
  | land place f _ hf ih =>
    obtain ⟨m, hm, ha, rfl⟩ := ih
    rw [hm.consistent.sound.flights, List.getElem?_map, Option.map_eq_some_iff] at hf
    obtain ⟨⟨session, g⟩, hg, rfl⟩ := hf
    have haccept := hm.accept ha (.land place)
    simp only [Moment.accept, hg] at haccept
    obtain ⟨history, hlead⟩ := Moment.leadsTo_land source m ha place session g
    exact ⟨_, haccept.leadsTo hlead, ha, rfl⟩

theorem Reachable.sound {source : Source} {interval : Nat} {p : Poller}
    (hp : Reachable source interval p) : ∃ carried h, Sound p carried h := by
  obtain ⟨m, hm, -, rfl⟩ := hp.exists_reached
  exact ⟨m.carried, m.history, hm.consistent.sound⟩

end Poller

end BotConsole.Poll
