import BotConsole.Proofs.Poll.Onward
import BotConsole.Proofs.Poll.Reachable

namespace BotConsole.Poll

namespace Poller

variable {p q : Poller}

structure IdleUntil (p : Poller) (time : Nat) : Prop where
  timers : ∀ t ∈ p.timers, time ≤ t.due p.interval
  flights : ∀ f ∈ p.flights, time ≤ f.due

def Settled (p : Poller) : Prop := p.IdleUntil (p.now + 1)

theorem IdleUntil.mono {time earlier : Nat} (hi : p.IdleUntil time) (hle : earlier ≤ time) :
    p.IdleUntil earlier :=
  ⟨fun t ht => Nat.le_trans hle (hi.timers t ht), fun f hf => Nat.le_trans hle (hi.flights f hf)⟩

theorem IdleUntil.agree {time : Nat} (hi : p.IdleUntil time) (ha : Agree p q) :
    q.IdleUntil time where
  timers := by rw [ha.timers, ha.interval]; exact hi.timers
  flights := ha.flights ▸ hi.flights

-- No timer is ahead of its time or behind it.
def Timely (p : Poller) : Prop :=
  ∀ t ∈ p.timers, t.begun + t.fetches * p.interval ≤ p.now ∧ p.now ≤ t.due p.interval

theorem Timely.onward (ht : p.Timely) (ho : Onward p q) : q.Timely := by
  intro t hm
  rw [ho.now, ho.interval]
  rcases ho.timers t hm with hm | ⟨hb, hf⟩
  · exact ht t hm
  · simp [Timer.due, hb, hf]

theorem Timely.elapse (ht : p.Timely) {time : Nat} (hle : p.now ≤ time) (hi : p.IdleUntil time) :
    Timely { p with now := time } :=
  fun t hm => ⟨Nat.le_trans (ht t hm).1 hle, hi.timers t hm⟩

theorem Timely.tick (ht : p.Timely) {carried : List (Nat × Flight)} {h : History}
    (hs : Sound p carried h) (source : Source) {t : Timer} (hm : t ∈ p.timers)
    (hd : t.due p.interval ≤ p.now) : (p.tick source t).Timely := by
  intro u hu
  rw [hs.timers_tick source hm, List.mem_singleton] at hu
  have hnow := (ht t hm).2
  rw [Poller.tick_of_current source (hs.timer_isCurrent hm), hu]
  simp only [Timer.due, Nat.add_mul, Nat.one_mul, record] at hd hnow ⊢
  omega

end Poller

namespace Moment

variable {source : Source} {m m' m'' : Moment}

-- An event keeps to the clock: timers fire and fetches come back when they are due or later, and
-- no time goes by before everything has happened that is due.
def Punctual (m : Moment) : Event → Prop
  | .tick number =>
    ∀ t ∈ m.poller.timers, t.number = number → t.due m.poller.interval ≤ m.poller.now
  | .land place => ∀ f, m.poller.flights[place]? = some f → f.due ≤ m.poller.now
  | .elapse duration => m.poller.IdleUntil (m.poller.now + duration)
  | _ => True

inductive Timed (source : Source) (m : Moment) : Moment → Prop where
  | refl : Timed source m m
  | step {m' : Moment} (e : Event) (hm : Timed source m m') (he : m'.Punctual e) :
    Timed source m (m'.step source e)

theorem Timed.trans (h : Timed source m m') (h' : Timed source m' m'') : Timed source m m'' := by
  induction h' with
  | refl => exact h
  | step e _ he ih => exact .step e ih he

theorem Timed.consistent (hm : m.Consistent) (h : Timed source m m') : m'.Consistent := by
  induction h with
  | refl => exact hm
  | step e _ _ ih => exact consistent_step ih e

theorem Timed.reached {interval : Nat} (hm : Reached source interval m) (h : Timed source m m') :
    Reached source interval m' := by
  induction h with
  | refl => exact hm
  | step e _ _ ih => exact ih.run [e]

theorem LeadsTo.timed (h : LeadsTo source m m') : Timed source m m' := by
  obtain ⟨n, rfl⟩ := h
  induction n generalizing m with
  | zero => exact .refl
  | succ n ih =>
    have hwork : Timed source m (m.step source .work) := .step .work .refl trivial
    exact hwork.trans ih

theorem timely_land (ht : m.poller.Timely) (place session : Nat) (f : Flight) :
    (m.land place session f).poller.Timely := by
  have herase : Poller.Timely { m.poller with flights := m.poller.flights.eraseIdx place } := ht
  unfold land
  generalize { m.poller with flights := m.poller.flights.eraseIdx place } = p at herase ⊢
  have hcommit := herase.onward (Poller.onward_commit p f.generation f.task f.result)
  rcases hc : p.commit f.generation f.task f.result with ⟨q, _ | o⟩
  · simp only [hc] at hcommit ⊢
    exact hcommit
  · simp only [hc] at hcommit ⊢
    exact hcommit.onward (.of_agree (Poller.agree_record q _))

theorem timely_step (hm : m.Consistent) (ht : m.poller.Timely) {e : Event} (he : m.Punctual e)
    (h : Step source m e m') : m'.poller.Timely := by
  cases h with
  | idle | skip => exact ht
  | call => exact ht.onward (.of_agree (Poller.agree_record _ _))
  | command => exact ht.onward (Poller.onward_perform _ _)
  | publish => exact ht.onward (.of_agree (Poller.agree_publish _ _))
  | start task => exact ht.onward (Poller.onward_start _ task)
  | reset => exact ht.onward (Poller.onward_reset _)
  | close => exact ht.onward (Poller.onward_close _)
  | subscribe l => exact ht.onward (.of_agree (Poller.agree_subscribe _ l))
  | unsubscribe tag => exact ht.onward (.of_agree (Poller.agree_unsubscribe _ tag))
  | detach tag => exact ht.onward (.of_agree (Poller.agree_detach _ tag))
  | watch tag => exact ht.onward (.of_agree (Poller.agree_watch _ tag))
  | settle => exact ht.onward (.of_agree (Poller.agree_settle _))
  | elapse duration => exact ht.elapse (Nat.le_add_right _ _) he
  | tick _ hmem => exact ht.tick hm.sound source hmem (he _ hmem rfl)
  | land => exact timely_land ht _ _ _

theorem Timed.timely (hm : m.Consistent) (ht : m.poller.Timely) (h : Timed source m m') :
    m'.poller.Timely := by
  induction h with
  | refl => exact ht
  | @step m' e h he ih => exact timely_step (h.consistent hm) ih he (step_cases source m' e)

theorem Timed.accept (ha : m.agenda = []) {e : Event} (he : m.Punctual e) :
    Timed source m (m.accept source e) := by
  rw [← step_of_idle ha]
  exact .step e .refl he

end Moment

end BotConsole.Poll
