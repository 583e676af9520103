import BotConsole.Proofs.Poll.Logged

namespace BotConsole.Poll

open BotConsole.Task (Failure Status)

inductive Deed where
  | fetched (task : Int)
  | emitted (outcome : Outcome)

def Entry.deed? : Entry → Option Deed
  | .fetched task => some (.fetched task)
  | .emitted o => some (.emitted o)
  | _ => none

theorem Entry.ignores_deed? : Ignores deed? :=
  ⟨⟨fun _ _ => rfl, fun _ => rfl⟩, fun _ => rfl, fun _ _ _ => rfl⟩

namespace Poller

variable {p q r : Poller}

def deeds (p : Poller) : List (Nat × Deed) :=
  p.logged Entry.deed?

-- Nothing has happened to the session.
structure Still (p q : Poller) : Prop where
  agree : Agree p q
  deeds : q.deeds = p.deeds

theorem still_record {e : Entry} (he : e.deed? = none) (p : Poller) : p.Still (p.record e) :=
  ⟨agree_record p e, (silent_record he p).logged⟩

theorem still_publish (p : Poller) (s : State) : p.Still (p.publish s) :=
  ⟨agree_publish p s, (silent_publish Entry.ignores_deed? p s).logged⟩

theorem still_subscribe (p : Poller) (l : Listener) : p.Still (p.subscribe l) :=
  ⟨agree_subscribe p l, rfl⟩

theorem still_unsubscribe (p : Poller) (tag : String) : p.Still (p.unsubscribe tag) :=
  ⟨agree_unsubscribe p tag, rfl⟩

theorem still_detach (p : Poller) (tag : String) : p.Still (p.detach tag) :=
  ⟨agree_detach p tag, rfl⟩

theorem still_watch (p : Poller) (tag : String) : p.Still (p.watch tag) :=
  ⟨agree_watch p tag, rfl⟩

theorem still_settle (p : Poller) : p.Still p.settle :=
  ⟨agree_settle p, (silent_settle Entry.ignores_deed?.toOverlooks p).logged⟩

-- The time stands still and the fetches stay on their way. A timer that was not there before is
-- one that begins now, and generations go up.
structure Onward (p q : Poller) : Prop where
  interval : q.interval = p.interval
  now : q.now = p.now
  flights : q.flights = p.flights
  timers : ∀ t ∈ q.timers, t ∈ p.timers ∨ t.begun = p.now ∧ t.fetches = 0
  generation_le : p.session.generation ≤ q.session.generation

namespace Onward

theorem of_agree (ha : Agree p q) : Onward p q where
  interval := ha.interval
  now := ha.now
  flights := ha.flights
  timers := fun _ ht => .inl (ha.timers ▸ ht)
  generation_le := Nat.le_of_eq (congrArg Session.generation ha.session.symm)

theorem trans (hpq : Onward p q) (hqr : Onward q r) : Onward p r where
  interval := hqr.interval.trans hpq.interval
  now := hqr.now.trans hpq.now
  flights := hqr.flights.trans hpq.flights
  timers := by
    intro t ht
    rcases hqr.timers t ht with ht | ⟨hb, hf⟩
    · exact hpq.timers t ht
    · exact .inr ⟨hb.trans hpq.now, hf⟩
  generation_le := Nat.le_trans hpq.generation_le hqr.generation_le

theorem foldl {α : Type} {f : Poller → α → Poller} (hf : ∀ p a, Onward p (f p a))
    (items : List α) (p : Poller) : Onward p (items.foldl f p) := by
  induction items generalizing p with
  | nil => exact of_agree (.refl p)
  | cons a items ih => exact (hf p a).trans (ih (f p a))

end Onward

@[simp] theorem stopTimer_session (p : Poller) : p.stopTimer.session = p.session := by
  unfold stopTimer
  cases p.session.timer <;> rfl

theorem onward_stopTimer (p : Poller) : Onward p p.stopTimer := by
  unfold stopTimer
  cases p.session.timer with
  | none => exact .of_agree (.refl p)
  | some number =>
    exact ⟨rfl, rfl, rfl, fun t ht => .inl (List.mem_filter.mp ht).1, Nat.le_refl _⟩

@[simp] theorem start_generation (p : Poller) (task : Int) :
    (p.start task).session.generation = p.session.generation + 1 := by
  simp [start, Session.start, publish, record]

@[simp] theorem reset_generation (p : Poller) :
    p.reset.session.generation = p.session.generation + 1 := by
  simp [reset, Session.reset, publish, record]

@[simp] theorem close_generation (p : Poller) :
    p.close.session.generation = p.session.generation + 1 := by
  simp [close, Session.abandon]

theorem onward_start (p : Poller) (task : Int) : Onward p (p.start task) := by
  have hstop := onward_stopTimer p
  refine ⟨hstop.interval, hstop.now, hstop.flights, ?_, by rw [start_generation]; omega⟩
  intro t ht
  rcases List.mem_append.mp ht with ht | ht
  · exact hstop.timers t ht
  · rw [List.mem_singleton.mp ht]
    exact .inr ⟨hstop.now, rfl⟩

theorem onward_reset (p : Poller) : Onward p p.reset := by
  have hstop := onward_stopTimer p
  exact ⟨hstop.interval, hstop.now, hstop.flights, hstop.timers, by rw [reset_generation]; omega⟩

theorem onward_close (p : Poller) : Onward p p.close := by
  have hstop := onward_stopTimer p
  exact ⟨hstop.interval, hstop.now, hstop.flights, hstop.timers, by rw [close_generation]; omega⟩

theorem tick_session (source : Source) (p : Poller) (t : Timer) :
    (p.tick source t).session = p.session := by
  unfold tick
  split <;> rfl

theorem still_or_lt_perform (p : Poller) (c : Command) :
    p.Still (p.perform c) ∨ p.session.generation < (p.perform c).session.generation := by
  cases c with
  | start task => exact .inr (by simp [perform])
  | reset => exact .inr (by simp [perform])
  | unsubscribe tag => exact .inl (still_unsubscribe p tag)
  | observe => exact .inl (still_record rfl p)

theorem onward_perform (p : Poller) (c : Command) : Onward p (p.perform c) := by
  cases c with
  | start task => exact onward_start p task
  | reset => exact onward_reset p
  | unsubscribe tag => exact .of_agree (agree_unsubscribe p tag)
  | observe => exact .of_agree (agree_record p _)

theorem onward_call (p : Poller) (o : Outcome) (number : Nat) (l : Listener) :
    Onward p (p.call o number l) := by
  unfold call
  split
  · exact (Onward.of_agree (agree_record p _)).trans (.foldl onward_perform _ _)
  · exact .of_agree (.refl p)

theorem onward_emit (p : Poller) (o : Outcome) : Onward p (p.emit o) :=
  (Onward.of_agree (agree_record p _)).trans
    (.foldl (fun p (number, l) => onward_call p o number l) _ _)

theorem onward_deliver (p : Poller) (generation : Nat) (o : Outcome) :
    Onward p (p.deliver generation o) := by
  unfold deliver
  split
  · exact .of_agree (.refl p)
  · dsimp only
    split
    · exact (onward_emit p o).trans (.of_agree (agree_publish _ _))
    · exact onward_emit p o

theorem onward_commit (p : Poller) (generation : Nat) (task : Int)
    (result : Except Failure Status) :
    Onward p (p.commit generation task result).1 := by
  unfold commit
  split
  · exact .of_agree (.refl p)
  · rename_i session o hc
    have hstop := onward_stopTimer p
    have hg := Session.commit_generation p.session generation task result
    rw [hc] at hg
    exact ⟨hstop.interval, hstop.now, hstop.flights, hstop.timers, Nat.le_of_eq hg.symm⟩

theorem onward_land (p : Poller) (place : Nat) (f : Flight) :
    Onward { p with flights := p.flights.eraseIdx place } (p.land place f) := by
  have hcommit := onward_commit { p with flights := p.flights.eraseIdx place } f.generation f.task
    f.result
  rcases hc : Poller.commit { p with flights := p.flights.eraseIdx place } f.generation f.task
    f.result with ⟨q, _ | o⟩
  · rw [hc] at hcommit
    rw [land_of_commit_none hc]
    exact hcommit
  · rw [hc] at hcommit
    rw [land_of_commit_some hc]
    exact hcommit.trans (onward_deliver q f.generation o)

end Poller

end BotConsole.Poll
