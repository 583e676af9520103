import BotConsole.Proofs.Poll.Frame
import BotConsole.Proofs.Poll.Moment
import Mathlib.Data.List.InsertIdx

namespace BotConsole.Poll

open BotConsole.Task (Failure Status)
open History

-- The session that was started as the one of this number, as its verdict leaves it.
def Session.followed (generation : Nat) (task : Option Int) (number : Nat) :
    Option Verdict → Session
  | none => ⟨.running, none, task, generation, false, some number⟩
  | some v => Session.conclude ⟨.running, none, task, generation, false, some number⟩ v

-- A fetch belongs to the task of its session, and its generation tells whether that session is
-- the current one.
structure Carries (h : History) (session : Nat) (f : Flight) : Prop where
  task : (tasks h)[session]? = some f.task
  generation_le : f.generation ≤ turns h
  generation_eq : f.generation = turns h ↔ current? h = some session

-- The poller holds what the history tells.
structure Sound (p : Poller) (carried : List (Nat × Flight)) (h : History) : Prop where
  interval : 1 ≤ p.interval
  begun : p.begunTimers = (tasks h).length
  generation : p.session.generation = turns h
  current : ∀ session, current? h = some session → p.isOpen = true ∧
    p.session = Session.followed (turns h) (tasks h)[session]? session (verdict? session h)
  idle : current? h = none → p.isOpen = true →
    p.session = ⟨.waiting, none, none, turns h, false, none⟩
  closed : p.isOpen = false → p.session.timer = none
  timers : p.timers.map Timer.number = p.session.timer.toList
  timer : ∀ t ∈ p.timers, t.generation = p.session.generation ∧ p.session.task = some t.task
  flights : p.flights = carried.map Prod.snd
  carries : ∀ c ∈ carried, Carries h c.1 c.2
  unborn : ∀ session, (tasks h).length ≤ session → verdict? session h = none

namespace Sound

variable {p q : Poller} {carried : List (Nat × Flight)} {h : History} {f : Fact}

theorem initial (interval : Nat) : Sound (.new interval) [] [] where
  interval := Nat.le_max_right _ _
  begun := rfl
  generation := rfl
  current := by simp [current?]
  idle := fun _ _ => rfl
  closed := fun _ => rfl
  timers := rfl
  timer := by simp [Poller.new]
  flights := rfl
  carries := by simp
  unborn := fun _ _ => rfl

theorem agree (hs : Sound p carried h) (ha : p.Agree q) : Sound q carried h where
  interval := ha.interval ▸ hs.interval
  begun := ha.begunTimers ▸ hs.begun
  generation := ha.session ▸ hs.generation
  current := by rw [ha.isOpen, ha.session]; exact hs.current
  idle := by rw [ha.isOpen, ha.session]; exact hs.idle
  closed := by rw [ha.isOpen, ha.session]; exact hs.closed
  timers := by rw [ha.timers, ha.session]; exact hs.timers
  timer := by rw [ha.timers, ha.session]; exact hs.timer
  flights := ha.flights ▸ hs.flights
  carries := hs.carries
  unborn := hs.unborn

theorem note (hs : Sound p carried h) (hf : f.isTurn = false)
    (hr : ∀ session, f.result? session = none) : Sound p carried (h ++ [f]) := by
  have ht : tasks (h ++ [f]) = tasks h := by simp [Fact.task?_of_isTurn hf]
  have hn : turns (h ++ [f]) = turns h := by simp [hf]
  have hc : current? (h ++ [f]) = current? h := current?_append hf
  have hv : ∀ session, verdict? session (h ++ [f]) = verdict? session h := by simp [hr]
  constructor
  · exact hs.interval
  · rw [ht]; exact hs.begun
  · rw [hn]; exact hs.generation
  · intro session hcur
    rw [hn, ht, hv]
    exact hs.current session (hc ▸ hcur)
  · rw [hn, hc]; exact hs.idle
  · exact hs.closed
  · exact hs.timers
  · exact hs.timer
  · exact hs.flights
  · intro c hm
    have hcar := hs.carries c hm
    exact ⟨ht ▸ hcar.task, hn ▸ hcar.generation_le, by rw [hn, hc]; exact hcar.generation_eq⟩
  · intro session hlen
    rw [hv]
    exact hs.unborn session (ht ▸ hlen)

-- Once a session is over its fetches are strangers to the new one.
theorem carries_turn (hc : ∀ c ∈ carried, Carries h c.1 c.2) (hf : f.isTurn = true)
    (hcur : ∀ session < (tasks h).length, current? (h ++ [f]) ≠ some session) :
    ∀ c ∈ carried, Carries (h ++ [f]) c.1 c.2 := by
  intro c hm
  obtain ⟨htask, hle, -⟩ := hc c hm
  have hlt : c.1 < (tasks h).length := (List.getElem?_eq_some_iff.mp htask).1
  refine ⟨?_, ?_, ?_⟩
  · rw [tasks_append, List.getElem?_append_left hlt, htask]
  · rw [turns_append, hf]; simp only [if_true]; omega
  · rw [turns_append, hf]
    simp only [if_true]
    exact ⟨fun he => by omega, fun he => absurd he (hcur c.1 hlt)⟩

theorem start (hs : Sound p carried h) (ho : p.isOpen = true) (task : Int) :
    Sound (p.start task) carried (h ++ [.started task]) := by
  unfold Poller.start
  rw [Poller.stopTimer_eq hs.timers]
  refine Sound.agree ?_ (Poller.agree_publish _ _)
  constructor
  · exact hs.interval
  · simp [hs.begun, Fact.task?]
  · simp [Session.start, hs.generation, Fact.isTurn]
  · intro session hc
    obtain rfl : (tasks h).length = session := by simpa using hc
    refine ⟨ho, ?_⟩
    simp [Session.start, Session.followed, Fact.task?, Fact.isTurn, Fact.result?, hs.generation,
      hs.begun, hs.unborn _ (Nat.le_refl _)]
  · intro hc; simp at hc
  · intro hc; simp [ho] at hc
  · rfl
  · simp [Session.start]
  · exact hs.flights
  · refine carries_turn hs.carries rfl fun session hlt he => ?_
    simp only [current?_append_started, Option.some.injEq] at he
    omega
  · intro session hlen
    simp only [tasks_append, Fact.task?, Option.toList_some, List.length_append] at hlen
    simp [Fact.result?, hs.unborn session (by omega)]

theorem reset (hs : Sound p carried h) (ho : p.isOpen = true) :
    Sound p.reset carried (h ++ [.reset]) := by
  unfold Poller.reset
  rw [Poller.stopTimer_eq hs.timers]
  refine Sound.agree ?_ (Poller.agree_publish _ _)
  constructor
  · exact hs.interval
  · simpa [Fact.task?] using hs.begun
  · simp [Session.reset, hs.generation, Fact.isTurn]
  · intro session hc; simp at hc
  · intro _ _
    simp [Session.reset, Fact.isTurn, hs.generation]
  · intro hc; simp [ho] at hc
  · rfl
  · simp
  · exact hs.flights
  · exact carries_turn hs.carries rfl fun session _ he => by simp at he
  · intro session hlen
    simpa [Fact.result?, Fact.task?] using hs.unborn session (by simpa [Fact.task?] using hlen)

theorem close (hs : Sound p carried h) : Sound p.close carried (h ++ [.closed]) := by
  unfold Poller.close
  rw [Poller.stopTimer_eq hs.timers]
  constructor
  · exact hs.interval
  · simpa [Fact.task?] using hs.begun
  · simp [Session.abandon, hs.generation, Fact.isTurn]
  · intro session hc; simp at hc
  · intro _ hc; simp at hc
  · intro _; rfl
  · rfl
  · simp
  · exact hs.flights
  · exact carries_turn hs.carries rfl fun session _ he => by simp at he
  · intro session hlen
    simpa [Fact.result?, Fact.task?] using hs.unborn session (by simpa [Fact.task?] using hlen)

theorem timer_current (hs : Sound p carried h) {t : Timer} (ht : t ∈ p.timers) :
    current? h = some t.number ∧ verdict? t.number h = none := by
  have hm : t.number ∈ p.session.timer.toList := hs.timers ▸ List.mem_map_of_mem ht
  have hsome : p.session.timer = some t.number := by simpa using hm
  have ho : p.isOpen = true := by
    cases ho : p.isOpen with
    | true => rfl
    | false => simp [hs.closed ho] at hsome
  cases hc : current? h with
  | none => simp [hs.idle hc ho] at hsome
  | some session =>
    have hses := (hs.current session hc).2
    cases hv : verdict? session h with
    | none =>
      obtain rfl : session = t.number := by simpa [hses, hv, Session.followed] using hsome
      exact ⟨rfl, hv⟩
    | some v => simp [hses, hv, Session.followed] at hsome

theorem timer_isCurrent (hs : Sound p carried h) {t : Timer} (ht : t ∈ p.timers) :
    p.session.isCurrent t.generation = true := by
  obtain ⟨hc, hv⟩ := hs.timer_current ht
  rw [Session.isCurrent_iff]
  refine ⟨(hs.timer t ht).1.symm, ?_⟩
  rw [(hs.current _ hc).2, hv]
  rfl

theorem eq_timer (hs : Sound p carried h) {t : Timer} (ht : t ∈ p.timers) : p.timers = [t] := by
  have hlen : p.timers.length ≤ 1 := by
    have hmap := congrArg List.length hs.timers
    rw [List.length_map] at hmap
    rw [hmap]
    cases p.session.timer <;> simp
  obtain ⟨u, hu⟩ := List.length_eq_one_iff.mp (Nat.le_antisymm hlen (List.length_pos_of_mem ht))
  rw [hu, List.mem_singleton] at ht
  rw [hu, ht]

theorem tick (hs : Sound p carried h) (source : Source) {t : Timer} (ht : t ∈ p.timers) :
    Sound (p.tick source t)
      (carried ++ ((p.tick source t).flights.drop p.flights.length).map (t.number, ·)) h := by
  obtain ⟨hc, -⟩ := hs.timer_current ht
  obtain ⟨hgen, htask⟩ := hs.timer t ht
  rw [Poller.tick_of_current source (hs.timer_isCurrent ht)]
  refine Sound.agree ?_ (Poller.agree_record _ _)
  constructor
  · exact hs.interval
  · exact hs.begun
  · exact hs.generation
  · exact hs.current
  · exact hs.idle
  · exact hs.closed
  · simpa [Function.comp_def] using hs.timers
  · intro u hu
    obtain ⟨v, hv, rfl⟩ := List.mem_map.mp hu
    simpa using hs.timer v hv
  · simp [Poller.record, hs.flights]
  · intro c hm
    rcases List.mem_append.mp hm with hm | hm
    · exact hs.carries c hm
    · obtain rfl : c = (t.number, ⟨t.generation, t.task, p.now + (source p.fetches).1,
          (source p.fetches).2⟩) := by simpa [Poller.record] using hm
      have hses := (hs.current _ hc).2
      refine ⟨?_, ?_, ?_⟩
      · rw [hses] at htask
        rw [← htask]
        cases verdict? t.number h <;> simp [Session.followed]
      · exact Nat.le_of_eq (hgen.trans hs.generation)
      · exact iff_of_true (hgen.trans hs.generation) hc
  · exact hs.unborn

theorem timers_tick (hs : Sound p carried h) (source : Source) {t : Timer} (ht : t ∈ p.timers) :
    (p.tick source t).timers = [{ t with fetches := t.fetches + 1 }] := by
  rw [Poller.tick_of_current source (hs.timer_isCurrent ht)]
  simp [Poller.record, hs.eq_timer ht, Timer.fire]

theorem erase (hs : Sound p carried h) (place : Nat) :
    Sound { p with flights := p.flights.eraseIdx place } (carried.eraseIdx place) h where
  interval := hs.interval
  begun := hs.begun
  generation := hs.generation
  current := hs.current
  idle := hs.idle
  closed := hs.closed
  timers := hs.timers
  timer := hs.timer
  flights := by simp only [hs.flights, List.eraseIdx_map]
  carries := fun c hm => hs.carries c (List.mem_of_mem_eraseIdx hm)
  unborn := hs.unborn

theorem elapse (hs : Sound p carried h) (time : Nat) : Sound { p with now := time } carried h where
  interval := hs.interval
  begun := hs.begun
  generation := hs.generation
  current := hs.current
  idle := hs.idle
  closed := hs.closed
  timers := hs.timers
  timer := hs.timer
  flights := hs.flights
  carries := hs.carries
  unborn := hs.unborn

-- A fetch finds its session going on as long as that is current and has no verdict.
theorem isCurrent_iff (hs : Sound p carried h) {session : Nat} {f : Flight}
    (hf : Carries h session f) :
    p.session.isCurrent f.generation = true ↔
      current? h = some session ∧ verdict? session h = none := by
  rw [Session.isCurrent_iff, hs.generation, eq_comm, hf.generation_eq]
  refine and_congr_right fun hc => ?_
  rw [(hs.current session hc).2]
  cases verdict? session h with
  | none => simp [Session.followed]
  | some v => cases v <;> simp [Session.followed, Session.conclude]

theorem of_outcome (hs : Sound p carried h) {session : Nat} {f : Flight}
    (hf : Carries h session f) {o : Outcome}
    (hc : p.commit f.generation f.task f.result = (q, some o)) :
    current? h = some session ∧ verdict? session h = none ∧ o.task = f.task ∧
      Verdict.ofResult? f.result = some o.verdict := by
  cases hcur : p.session.isCurrent f.generation with
  | false => simp [Poller.commit_of_stale f.task f.result hcur] at hc
  | true =>
    obtain ⟨hk, hv⟩ := (hs.isCurrent_iff hf).mp hcur
    have hsucceeded : p.session.succeeded = false := by
      rw [(hs.current session hk).2, hv]
      rfl
    rw [Poller.commit_of_current f.task f.result hcur hsucceeded] at hc
    cases hr : Verdict.ofResult? f.result with
    | none => simp [hr] at hc
    | some v =>
      simp only [hr, Prod.mk.injEq, Option.some.injEq] at hc
      obtain ⟨-, rfl⟩ := hc
      exact ⟨hk, hv, rfl, rfl⟩

theorem land (hs : Sound p carried h) {session : Nat} {f : Flight} (hf : Carries h session f) :
    Sound (p.commit f.generation f.task f.result).1 carried
      (h ++ [.landed session f.result]) := by
  have hlt : session < (tasks h).length := (List.getElem?_eq_some_iff.mp hf.task).1
  have ht : tasks (h ++ [.landed session f.result]) = tasks h := by simp [Fact.task?]
  have hn : turns (h ++ [.landed session f.result]) = turns h := by simp [Fact.isTurn]
  have hc : current? (h ++ [.landed session f.result]) = current? h := current?_append rfl
  have hcarries : ∀ c ∈ carried, Carries (h ++ [.landed session f.result]) c.1 c.2 := by
    intro c hm
    obtain ⟨htask, hle, heq⟩ := hs.carries c hm
    exact ⟨ht ▸ htask, hn ▸ hle, by rw [hn, hc]; exact heq⟩
  have hunborn : ∀ k, (tasks h).length ≤ k →
      verdict? k (h ++ [.landed session f.result]) = none := by
    intro k hk
    have hne : session ≠ k := by omega
    simp [hs.unborn k hk, Fact.result?, hne]
  cases hcur : p.session.isCurrent f.generation with
  | false =>
    rw [Poller.commit_of_stale _ _ hcur]
    have hno : ¬ (current? h = some session ∧ verdict? session h = none) := by
      rw [← hs.isCurrent_iff hf, hcur]; simp
    refine ⟨hs.interval, ht ▸ hs.begun, hn ▸ hs.generation, ?_, ?_, hs.closed, hs.timers, hs.timer,
      hs.flights, hcarries, ht ▸ hunborn⟩
    · intro k hk
      rw [hc] at hk
      obtain ⟨ho, hses⟩ := hs.current k hk
      refine ⟨ho, ?_⟩
      rw [hses, hn, ht, verdict?_append]
      by_cases he : session = k
      · subst he
        obtain ⟨v, hv⟩ := Option.ne_none_iff_exists'.mp fun hv => hno ⟨hk, hv⟩
        rw [hv]; rfl
      · simp [Fact.result?, he]
    · rw [hc, hn]; exact hs.idle
  | true =>
    obtain ⟨hk, hv⟩ := (hs.isCurrent_iff hf).mp hcur
    obtain ⟨ho, hses⟩ := hs.current session hk
    have hv' : verdict? session (h ++ [.landed session f.result]) =
        Verdict.ofResult? f.result := by simp [hv, Fact.result?]
    rw [Poller.commit_of_current _ _ hcur (by rw [hses, hv]; rfl)]
    cases hr : Verdict.ofResult? f.result with
    | none =>
      refine ⟨hs.interval, ht ▸ hs.begun, hn ▸ hs.generation, ?_, ?_, hs.closed, hs.timers,
        hs.timer, hs.flights, hcarries, ht ▸ hunborn⟩
      · intro k hk'
        obtain rfl : session = k := Option.some.inj (hk.symm.trans (hc.symm.trans hk'))
        refine ⟨ho, ?_⟩
        rw [hn, ht, hv', hr, hses, hv]
      · rw [hc, hk]; simp
    | some v =>
      simp only [Poller.stopTimer_eq hs.timers]
      refine ⟨hs.interval, ht ▸ hs.begun, ?_, ?_, ?_, ?_, ?_, ?_, hs.flights, hcarries,
        ht ▸ hunborn⟩
      · simpa [Fact.isTurn] using hs.generation
      · intro k hk'
        obtain rfl : session = k := Option.some.inj (hk.symm.trans (hc.symm.trans hk'))
        refine ⟨ho, ?_⟩
        rw [hn, ht, hv', hr, hses, hv]
        rfl
      · rw [hc, hk]; simp
      · simp
      · simp
      · simp

end Sound

end BotConsole.Poll
