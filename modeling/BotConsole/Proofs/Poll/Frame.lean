import BotConsole.Poll.Poller

namespace BotConsole.Poll

open BotConsole.Task (Failure Status)

namespace Session

variable {s : Session} {generation : Nat}

theorem isCurrent_iff :
    s.isCurrent generation = true ↔ s.generation = generation ∧ s.state = .running := by
  simp [isCurrent]

def conclude (s : Session) : Verdict → Session
  | .succeeded => { s with state := .success, succeeded := true, timer := none }
  | .failed f => { s with state := .error, error := some f.message, timer := none }

@[simp] theorem conclude_generation (s : Session) (v : Verdict) :
    (s.conclude v).generation = s.generation := by
  cases v <;> rfl

@[simp] theorem conclude_task (s : Session) (v : Verdict) : (s.conclude v).task = s.task := by
  cases v <;> rfl

@[simp] theorem conclude_timer (s : Session) (v : Verdict) : (s.conclude v).timer = none := by
  cases v <;> rfl

theorem conclude_isCurrent (s : Session) (v : Verdict) (generation : Nat) :
    (s.conclude v).isCurrent generation = false := by
  cases v <;> simp [isCurrent, conclude]

theorem commit_of_stale (task : Int) (result : Except Failure Status)
    (hs : s.isCurrent generation = false) : s.commit generation task result = (s, none) := by
  simp [commit, hs]

@[simp] theorem commit_generation (s : Session) (generation : Nat) (task : Int)
    (result : Except Failure Status) :
    (s.commit generation task result).1.generation = s.generation := by
  unfold commit
  split
  · rfl
  · split
    · rfl
    · split <;> rfl
    · rfl

theorem eq_conclude_of_commit {s' : Session} {task : Int} {result : Except Failure Status}
    {o : Outcome} (hc : s.commit generation task result = (s', some o)) :
    s.isCurrent generation = true ∧ s' = s.conclude o.verdict := by
  cases hs : s.isCurrent generation with
  | false => simp [commit_of_stale task result hs] at hc
  | true =>
    refine ⟨rfl, ?_⟩
    simp only [commit, hs, Bool.not_true, Bool.false_eq_true, if_false] at hc
    split at hc
    · cases hc
    · split at hc <;> cases hc
      rfl
    · cases hc
      rfl

theorem commit_of_current (task : Int) (result : Except Failure Status)
    (hs : s.isCurrent generation = true) (hn : s.succeeded = false) :
    s.commit generation task result = match Verdict.ofResult? result with
      | none => (s, none)
      | some v => (s.conclude v, some ⟨task, v⟩) := by
  unfold commit
  rcases Verdict.ofResult? result with _ | _ | f <;> simp [hs, hn, conclude]

end Session

namespace Timer

@[simp] theorem fire_number (number : Nat) (t : Timer) : (t.fire number).number = t.number := by
  unfold fire; split <;> rfl

@[simp] theorem fire_generation (number : Nat) (t : Timer) :
    (t.fire number).generation = t.generation := by
  unfold fire; split <;> rfl

@[simp] theorem fire_task (number : Nat) (t : Timer) : (t.fire number).task = t.task := by
  unfold fire; split <;> rfl

end Timer

namespace Poller

variable {p q r : Poller}

-- Two pollers that follow the same session, with the same timers and fetches, at the same time.
-- Their listeners, those who watch them and what they recorded may differ.
structure Agree (p q : Poller) : Prop where
  interval : q.interval = p.interval
  now : q.now = p.now
  isOpen : q.isOpen = p.isOpen
  session : q.session = p.session
  begunTimers : q.begunTimers = p.begunTimers
  timers : q.timers = p.timers
  fetches : q.fetches = p.fetches
  flights : q.flights = p.flights

namespace Agree

theorem refl (p : Poller) : Agree p p := ⟨rfl, rfl, rfl, rfl, rfl, rfl, rfl, rfl⟩

theorem trans (hpq : Agree p q) (hqr : Agree q r) : Agree p r where
  interval := hqr.interval.trans hpq.interval
  now := hqr.now.trans hpq.now
  isOpen := hqr.isOpen.trans hpq.isOpen
  session := hqr.session.trans hpq.session
  begunTimers := hqr.begunTimers.trans hpq.begunTimers
  timers := hqr.timers.trans hpq.timers
  fetches := hqr.fetches.trans hpq.fetches
  flights := hqr.flights.trans hpq.flights

theorem foldl {α : Type} {f : Poller → α → Poller} (hf : ∀ p a, Agree p (f p a))
    (items : List α) (p : Poller) : Agree p (items.foldl f p) := by
  induction items generalizing p with
  | nil => exact refl p
  | cons a items ih => exact (hf p a).trans (ih (f p a))

end Agree

theorem agree_record (p : Poller) (e : Entry) : p.Agree (p.record e) :=
  ⟨rfl, rfl, rfl, rfl, rfl, rfl, rfl, rfl⟩

theorem agree_publish (p : Poller) (s : State) : p.Agree (p.publish s) :=
  ⟨rfl, rfl, rfl, rfl, rfl, rfl, rfl, rfl⟩

theorem agree_subscribe (p : Poller) (l : Listener) : p.Agree (p.subscribe l) :=
  ⟨rfl, rfl, rfl, rfl, rfl, rfl, rfl, rfl⟩

theorem agree_unsubscribe (p : Poller) (tag : String) : p.Agree (p.unsubscribe tag) :=
  ⟨rfl, rfl, rfl, rfl, rfl, rfl, rfl, rfl⟩

theorem agree_detach (p : Poller) (tag : String) : p.Agree (p.detach tag) :=
  ⟨rfl, rfl, rfl, rfl, rfl, rfl, rfl, rfl⟩

theorem agree_watch (p : Poller) (tag : String) : p.Agree (p.watch tag) :=
  ⟨rfl, rfl, rfl, rfl, rfl, rfl, rfl, rfl⟩

theorem agree_look (isOver : Bool) (p : Poller) (w : Watcher) : p.Agree (p.look isOver w) := by
  unfold look
  split <;> split
  · exact agree_record p _
  · exact Agree.refl p
  · exact (agree_record p _).trans (agree_record _ _)
  · exact agree_record p _

theorem agree_settle (p : Poller) : p.Agree p.settle := by
  have hlook := Agree.foldl (agree_look (!p.isOpen && p.flights.isEmpty)) p.watchers p
  exact hlook.trans ⟨rfl, rfl, rfl, rfl, rfl, rfl, rfl, rfl⟩

theorem settle_keeps {α : Type} {read : Poller → α}
    (hlook : ∀ isOver p w, read (look isOver p w) = read p)
    (hseen : ∀ p watchers, read { p with watchers := watchers } = read p) (p : Poller) :
    read p.settle = read p := by
  have hfold : ∀ (isOver : Bool) (watchers : List Watcher) (p : Poller),
      read (watchers.foldl (look isOver) p) = read p := by
    intro isOver watchers
    induction watchers with
    | nil => exact fun _ => rfl
    | cons w watchers ih => exact fun p => (ih _).trans (hlook isOver p w)
  exact (hseen _ _).trans (hfold _ _ _)

-- Where the stored timer is the only one, none is left without it.
theorem stopTimer_eq (ht : p.timers.map Timer.number = p.session.timer.toList) :
    p.stopTimer = { p with timers := [] } := by
  unfold stopTimer
  cases hn : p.session.timer with
  | none =>
    have hnil : p.timers = [] := by simpa [hn] using ht
    rw [← hnil]
  | some number =>
    have hone : p.timers.map Timer.number = [number] := by simpa [hn] using ht
    have hfilter : p.timers.filter (·.number != number) = [] := by
      rw [List.filter_eq_nil_iff]
      intro t hm
      have := List.mem_map_of_mem (f := Timer.number) hm
      simpa [hone] using this
    simp [hfilter]

theorem session_of_commit {generation : Nat} {task : Int} {result : Except Failure Status}
    {o : Outcome} (hc : p.commit generation task result = (q, some o)) :
    p.session.isCurrent generation = true ∧ q.session = p.session.conclude o.verdict := by
  unfold commit at hc
  split at hc
  · simp at hc
  · rename_i hs
    obtain ⟨rfl, heq⟩ := Prod.mk.inj hc
    rw [Option.some.inj heq] at hs
    exact Session.eq_conclude_of_commit hs

theorem generation_of_commit {generation : Nat} {task : Int} {result : Except Failure Status}
    {o : Outcome} (hc : p.commit generation task result = (q, some o)) :
    q.session.generation = generation := by
  obtain ⟨hcur, hq⟩ := session_of_commit hc
  rw [hq, Session.conclude_generation]
  exact (Session.isCurrent_iff.mp hcur).1

theorem commit_of_stale {generation : Nat} (task : Int) (result : Except Failure Status)
    (hs : p.session.isCurrent generation = false) :
    p.commit generation task result = (p, none) := by
  simp [commit, Session.commit_of_stale task result hs]

theorem commit_of_current {generation : Nat} (task : Int) (result : Except Failure Status)
    (hs : p.session.isCurrent generation = true) (hn : p.session.succeeded = false) :
    p.commit generation task result = match Verdict.ofResult? result with
      | none => (p, none)
      | some v => ({ p.stopTimer with session := p.session.conclude v }, some ⟨task, v⟩) := by
  unfold commit
  rw [Session.commit_of_current task result hs hn]
  cases Verdict.ofResult? result <;> rfl

theorem land_of_commit_none {place : Nat} {f : Flight}
    (hc : Poller.commit { p with flights := p.flights.eraseIdx place } f.generation f.task
      f.result = (q, none)) : p.land place f = q := by
  simp only [land, apply, hc]

theorem land_of_commit_some {place : Nat} {f : Flight} {o : Outcome}
    (hc : Poller.commit { p with flights := p.flights.eraseIdx place } f.generation f.task
      f.result = (q, some o)) : p.land place f = q.deliver f.generation o := by
  simp only [land, apply, hc]

theorem tick_of_current (source : Source) {t : Timer}
    (hs : p.session.isCurrent t.generation = true) :
    p.tick source t = Poller.record
      { p with
        fetches := p.fetches + 1
        flights := p.flights ++
          [⟨t.generation, t.task, p.now + (source p.fetches).1, (source p.fetches).2⟩]
        timers := p.timers.map (.fire t.number) }
      (.fetched t.task) := by
  simp [tick, hs]

end Poller

end BotConsole.Poll
