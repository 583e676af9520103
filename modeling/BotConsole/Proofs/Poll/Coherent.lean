import BotConsole.Proofs.Poll.FirstVerdict
import BotConsole.Proofs.Poll.Outcomes

namespace BotConsole.Poll

open BotConsole.Task (Failure Status)
open History

-- The fields of a session say the same as its state.
structure Session.Coherent (s : Session) : Prop where
  task : s.state = .waiting ↔ s.task = none
  error : s.error.isSome = true ↔ s.state = .error
  timer : s.timer.isSome = true ↔ s.state = .running
  succeeded : s.succeeded = true ↔ s.state = .success

theorem Session.coherent_followed (generation : Nat) (task : Int) (number : Nat)
    (v? : Option Verdict) : (followed generation (some task) number v?).Coherent := by
  rcases v? with _ | _ | f <;> constructor <;> simp [followed, conclude]

def Fact.isRestart : Fact → Bool
  | .started _ | .reset => true
  | _ => false

namespace History

def restarts (h : History) : Nat :=
  h.countP Fact.isRestart

theorem turns_eq_restarts {h : History} (hc : Fact.closed ∉ h) : turns h = restarts h := by
  refine List.countP_congr fun f hf => ?_
  cases f with
  | closed => exact absurd hf hc
  | _ => simp [Fact.isTurn, Fact.isRestart]

end History

namespace Sound

variable {p : Poller} {carried : List (Nat × Flight)} {h : History}

theorem coherent (hs : Sound p carried h) (ho : p.isOpen = true) : p.session.Coherent := by
  cases hc : current? h with
  | none =>
    rw [hs.idle hc ho]
    constructor <;> simp
  | some session =>
    have hlt : session < (tasks h).length := by
      rw [length_of_current? hc]
      exact Nat.lt_succ_self session
    rw [(hs.current session hc).2, List.getElem?_eq_getElem hlt]
    exact Session.coherent_followed _ _ _ _

theorem timers_of_closed (hs : Sound p carried h) (ho : p.isOpen = false) : p.timers = [] := by
  have ht := hs.timers
  rw [hs.closed ho] at ht
  exact List.map_eq_nil_iff.mp ht

theorem current?_of_closed (hs : Sound p carried h) (ho : p.isOpen = false) :
    current? h = none := by
  cases hc : current? h with
  | none => rfl
  | some session =>
    rw [(hs.current session hc).1] at ho
    cases ho

end Sound

namespace Poller

variable {p q r : Poller}

-- Nothing that can be seen of a closed poller has changed.
structure Frozen (p q : Poller) : Prop where
  isOpen : q.isOpen = p.isOpen
  session : q.session = p.session
  tellings : q.tellings = p.tellings

theorem Frozen.refl (p : Poller) : Frozen p p := ⟨rfl, rfl, rfl⟩

theorem Frozen.trans (hpq : Frozen p q) (hqr : Frozen q r) : Frozen p r :=
  ⟨hqr.isOpen.trans hpq.isOpen, hqr.session.trans hpq.session, hqr.tellings.trans hpq.tellings⟩

theorem Frozen.of_agree (ha : Agree p q) (hs : Silent Entry.telling? p q) : Frozen p q :=
  ⟨ha.isOpen, ha.session, congrArg (List.map Prod.snd) hs.logged⟩

end Poller

namespace Moment

variable {m m' : Moment} {source : Source} {e : Event}

theorem agenda_of_closed (hm : m.Consistent) (ho : m.poller.isOpen = false) : m.agenda = [] := by
  by_contra hne
  rw [hm.isOpen hne] at ho
  cases ho

-- A closed poller still takes in who unsubscribes or watches, and the fetches that come back,
-- but none of it touches the session.
theorem frozen_step (hm : m.Consistent) (ho : m.poller.isOpen = false)
    (h : Step source m e m') : m.poller.Frozen m'.poller := by
  have hclosed : m.poller.isOpen ≠ true := by simp [ho]
  have hidle := agenda_of_closed hm ho
  have hi := Entry.ignores_telling?
  cases h with
  | idle | skip => exact .refl _
  | call ha | command ha | publish ha => simp [hidle] at ha
  | start _ _ ho' | reset _ ho' | close _ ho' | subscribe _ _ ho' | watch _ _ ho' =>
    exact absurd ho' hclosed
  | unsubscribe tag =>
    exact .of_agree (Poller.agree_unsubscribe _ tag) (Poller.silent_unsubscribe _ _ tag)
  | detach tag => exact .of_agree (Poller.agree_detach _ tag) (Poller.silent_detach _ _ tag)
  | settle => exact .of_agree (Poller.agree_settle _) (Poller.silent_settle hi.toOverlooks _)
  | elapse duration => exact ⟨rfl, rfl, rfl⟩
  | tick _ ht => simp [hm.sound.timers_of_closed ho] at ht
  | @land place session f _ hf =>
    have hcar : Carries m.history session f := hm.sound.carries _ (List.mem_of_getElem? hf)
    have hcommit := (hm.sound.erase place).commit_of_over hcar
      (.inl (by rw [hm.sound.current?_of_closed ho]; simp))
    simp only [land, hcommit]
    exact ⟨rfl, rfl, rfl⟩

theorem frozen_run (source : Source) (hm : m.Consistent) (ho : m.poller.isOpen = false)
    (events : List Event) : m.poller.Frozen (m.run source events).poller := by
  induction events generalizing m with
  | nil => exact .refl _
  | cons e events ih =>
    have hstep := frozen_step hm ho (step_cases source m e)
    exact hstep.trans (ih (consistent_step hm e) (hstep.isOpen.trans ho))

theorem land_isOpen (m : Moment) (place session : Nat) (f : Flight) :
    (m.land place session f).poller.isOpen = m.poller.isOpen := by
  unfold land Poller.commit
  dsimp only
  split
  · rename_i hc
    split at hc <;> cases hc
    rfl
  · rename_i hc
    split at hc <;> cases hc
    exact Poller.stopTimer_isOpen _

theorem closed_notMem_land (m : Moment) (place session : Nat) (f : Flight)
    (hc : Fact.closed ∉ m.history) : Fact.closed ∉ (m.land place session f).history := by
  unfold land
  dsimp only
  split <;> simpa [emit] using hc

theorem closed_notMem_step (hm : m.poller.isOpen = true → Fact.closed ∉ m.history)
    (h : Step source m e m') (ho : m'.poller.isOpen = true) : Fact.closed ∉ m'.history := by
  cases h with
  | idle | skip | subscribe | unsubscribe | detach | watch | elapse | publish => exact hm ho
  | call => simpa using hm ho
  | @command c rest ha =>
    have hc : Fact.closed ∉ m.history := hm ((Poller.perform_isOpen _ c).symm.trans ho)
    cases c <;> simpa [Fact.ofCommand?] using hc
  | start _ _ ho' | reset _ ho' => simpa using hm ho'
  | close => simp [Poller.close] at ho
  | settle => exact hm ((Poller.agree_settle m.poller).isOpen.symm.trans ho)
  | @tick t _ ht =>
    refine hm (Eq.trans ?_ ho)
    simp only [tick, Poller.tick]
    split <;> rfl
  | @land place session f _ hf =>
    exact closed_notMem_land m place session f (hm ((land_isOpen m place session f).symm.trans ho))

theorem closed_notMem_run (source : Source) (interval : Nat) (events : List Event) :
    ((initial interval).run source events).poller.isOpen = true →
      Fact.closed ∉ ((initial interval).run source events).history := by
  induction events using List.reverseRecOn with
  | nil => simp [run, initial]
  | append_singleton events e ih =>
    rw [run_concat]
    exact closed_notMem_step ih (step_cases source _ e)

end Moment

-- As long as a poller is open the fields of its session say the same as its state, also while
-- listeners are being called. Once it is closed nothing changes the session or tells anybody
-- anything.
theorem session_coherent (source : Source) (interval : Nat) (events : List Event) :
    let m := (Moment.initial interval).run source events
    (m.poller.isOpen = true →
      m.poller.session.Coherent ∧
      m.poller.timers.map Timer.number = m.poller.session.timer.toList ∧
      m.poller.session.generation = restarts m.history) ∧
    (∀ f ∈ m.poller.flights, m.poller.session.isCurrent f.generation = true →
      m.poller.session.succeeded = false ∧
      (Verdict.ofResult? f.result = some .succeeded →
        m.poller.session.commit f.generation f.task f.result =
          (m.poller.session.conclude .succeeded, some ⟨f.task, .succeeded⟩))) ∧
    (m.poller.isOpen = false → ∀ more,
      let m' := m.run source more
      m'.poller.timers = [] ∧ m'.poller.session = m.poller.session ∧
      m'.poller.tellings = m.poller.tellings) := by
  intro m
  have hm : m.Consistent := Moment.consistent_run source (Moment.consistent_initial interval) events
  refine ⟨fun ho => ⟨hm.sound.coherent ho, hm.sound.timers, ?_⟩, fun f hf hcur => ?_,
    fun ho more => ?_⟩
  · rw [hm.sound.generation, turns_eq_restarts (Moment.closed_notMem_run source interval events ho)]
  · rw [hm.sound.flights, List.mem_map] at hf
    obtain ⟨⟨session, f⟩, hc, rfl⟩ := hf
    obtain ⟨hk, hv⟩ := (hm.sound.isCurrent_iff (hm.sound.carries _ hc)).mp hcur
    have hn : m.poller.session.succeeded = false := by
      rw [(hm.sound.current session hk).2, hv]
      rfl
    refine ⟨hn, fun hr => ?_⟩
    rw [Session.commit_of_current _ _ hcur hn, hr]
  · have hfrozen := Moment.frozen_run source hm ho more
    have hm' := Moment.consistent_run source hm more
    exact ⟨hm'.sound.timers_of_closed (hfrozen.isOpen.trans ho), hfrozen.session, hfrozen.tellings⟩

-- The first fetch fails, and every later one finds the task done.
def recovering : Source := fun n =>
  if n = 0 then (0, .error (.transport "gone")) else (0, .ok ⟨none, none, .succeeded⟩)

-- A listener that starts another task when the first one has failed.
def retrying : List Event :=
  [.subscribe ⟨"again", .failure, fun _ _ => [.start 8]⟩, .start 7, .tick 0, .land 0, .work, .work]

-- The second task is running while the failure of the first one is still being told. Its success
-- is on its way when the poller is closed, and comes back to nobody.
theorem session_coherent_retrying :
    ((Moment.initial 1000).run recovering retrying).agenda ≠ [] ∧
    ((Moment.initial 1000).run recovering retrying).poller.session.Coherent ∧
    (let m := (Moment.initial 1000).run recovering (retrying ++ [.work, .tick 1])
    m.poller.session.succeeded = false ∧
    m.poller.session.commit 2 8 (.ok ⟨none, none, .succeeded⟩) =
      (m.poller.session.conclude .succeeded, some ⟨8, .succeeded⟩)) ∧
    (let m := (Moment.initial 1000).run recovering (retrying ++ [.work, .tick 1, .close])
    (m.run recovering [.land 0]).poller.timers = [] ∧
    (m.run recovering [.land 0]).poller.session = m.poller.session) := by
  obtain ⟨hopen, -, -⟩ := session_coherent recovering 1000 retrying
  obtain ⟨-, hguard, -⟩ := session_coherent recovering 1000 (retrying ++ [.work, .tick 1])
  obtain ⟨-, -, hclosed⟩ := session_coherent recovering 1000 (retrying ++ [.work, .tick 1, .close])
  obtain ⟨hn, hcommit⟩ := hguard ⟨2, 8, 0, .ok ⟨none, none, .succeeded⟩⟩
    (List.mem_singleton.mpr rfl) rfl
  obtain ⟨htimers, hsession, -⟩ := hclosed rfl [.land 0]
  exact ⟨List.cons_ne_nil _ _, (hopen rfl).1, ⟨hn, hcommit rfl⟩, htimers, hsession⟩

end BotConsole.Poll
