import BotConsole.Proofs.Poll.Sound

namespace BotConsole.Poll

open BotConsole.Task (Failure Status)
open History

namespace Poller

@[simp] theorem stopTimer_isOpen (p : Poller) : p.stopTimer.isOpen = p.isOpen := by
  unfold stopTimer
  cases p.session.timer <;> rfl

@[simp] theorem perform_isOpen (p : Poller) (c : Command) : (p.perform c).isOpen = p.isOpen := by
  cases c with
  | start task => exact stopTimer_isOpen p
  | reset => exact stopTimer_isOpen p
  | unsubscribe tag => rfl
  | observe => rfl

end Poller

theorem Sound.perform {p : Poller} {carried : List (Nat × Flight)} {h : History}
    (hs : Sound p carried h) (ho : p.isOpen = true) (c : Command) :
    Sound (p.perform c) carried (h ++ (Fact.ofCommand? c).toList) := by
  cases c with
  | start task => exact hs.start ho task
  | reset => exact hs.reset ho
  | unsubscribe tag =>
    simpa [Fact.ofCommand?, Poller.perform] using hs.agree (Poller.agree_unsubscribe p tag)
  | observe => simpa [Fact.ofCommand?, Poller.perform] using hs.agree (Poller.agree_record p _)

namespace Moment

variable {m m' : Moment} {source : Source} {e : Event}

-- Between two steps the poller holds what the history tells, and only an open poller has an
-- emission going on.
structure Consistent (m : Moment) : Prop where
  sound : Sound m.poller m.carried m.history
  isOpen : m.agenda ≠ [] → m.poller.isOpen = true

theorem consistent_initial (interval : Nat) : (initial interval).Consistent :=
  ⟨.initial interval, fun h => absurd rfl h⟩

theorem consistent_land (hm : m.Consistent) (ha : m.agenda = []) {place session : Nat}
    {f : Flight} (hf : m.carried[place]? = some (session, f)) :
    (m.land place session f).Consistent := by
  have hcar : Carries m.history session f := hm.sound.carries _ (List.mem_of_getElem? hf)
  have herase := hm.sound.erase place
  have hland := herase.land hcar
  unfold land
  generalize { m.poller with flights := m.poller.flights.eraseIdx place } = p at herase hland ⊢
  rcases hc : p.commit f.generation f.task f.result with ⟨q, _ | o⟩
  · simp only [hc] at hland ⊢
    exact ⟨hland, fun hne => absurd ha hne⟩
  · simp only [hc] at hland ⊢
    refine ⟨(hland.agree (Poller.agree_record _ _)).note rfl fun _ => rfl, fun _ => ?_⟩
    have hk := (herase.of_outcome hcar hc).1
    exact (hland.current session (by rw [current?_append rfl]; exact hk)).1

theorem Consistent.of_step (hm : m.Consistent) (h : Step source m e m') : m'.Consistent := by
  have hs := hm.sound
  have hopen : ∀ {next : Pending} {rest : List Pending},
      m.agenda = next :: rest → m.poller.isOpen = true :=
    fun ha => hm.isOpen (by simp [ha])
  have hidle : ∀ {q : Poller} {h : History} {carried : List (Nat × Flight)}, m.agenda = [] →
      Sound q carried h → Consistent { m with poller := q, carried, history := h } :=
    fun ha hq => ⟨hq, fun hne => absurd ha hne⟩
  cases h with
  | idle => exact hm
  | skip ha => exact ⟨hs, fun _ => hopen ha⟩
  | call ha =>
    exact ⟨(hs.agree (Poller.agree_record _ _)).note rfl fun _ => rfl, fun _ => hopen ha⟩
  | command ha =>
    exact ⟨hs.perform (hopen ha) _, fun _ => (Poller.perform_isOpen _ _).trans (hopen ha)⟩
  | publish ha => exact ⟨hs.agree (Poller.agree_publish _ _), fun _ => hopen ha⟩
  | start task ha ho => exact hidle ha (hs.start ho task)
  | reset ha ho => exact hidle ha (hs.reset ho)
  | close ha => exact hidle ha hs.close
  | subscribe l ha => exact hidle ha (hs.agree (Poller.agree_subscribe _ l))
  | unsubscribe tag ha => exact hidle ha (hs.agree (Poller.agree_unsubscribe _ tag))
  | detach tag ha => exact hidle ha (hs.agree (Poller.agree_detach _ tag))
  | watch tag ha => exact hidle ha (hs.agree (Poller.agree_watch _ tag))
  | settle ha => exact hidle ha (hs.agree (Poller.agree_settle _))
  | elapse duration ha => exact hidle ha (hs.elapse _)
  | tick ha ht => exact hidle ha (hs.tick source ht)
  | land ha hf => exact consistent_land hm ha hf

theorem consistent_step (hm : m.Consistent) (e : Event) : (m.step source e).Consistent :=
  hm.of_step (step_cases source m e)

theorem consistent_run (source : Source) (hm : m.Consistent) (events : List Event) :
    (m.run source events).Consistent := by
  induction events generalizing m with
  | nil => exact hm
  | cons e events ih => exact ih (consistent_step hm e)

end Moment

end BotConsole.Poll
