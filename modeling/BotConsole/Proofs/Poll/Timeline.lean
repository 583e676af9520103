import BotConsole.Proofs.Poll.Clock
import BotConsole.Proofs.Poll.FirstVerdict
import Mathlib.Order.Bounds.Basic

namespace BotConsole.Poll

open BotConsole.Task (Failure Status)

namespace Poller

-- When the fetches of a session are sent that is started at a poller, from the first one on.
def issueTime (p : Poller) (i : Nat) : Nat :=
  p.now + i * p.interval

def answer (source : Source) (p : Poller) (i : Nat) : Except Failure Status :=
  (source (p.fetches + (i - 1))).2

def arrivalTime (source : Source) (p : Poller) (i : Nat) : Nat :=
  p.issueTime i + (source (p.fetches + (i - 1))).1

-- When they come back that end the session, if it is not over yet.
def endings (source : Source) (p : Poller) : Set Nat :=
  { time | ∃ i, 1 ≤ i ∧ ¬ GoesOn (p.answer source i) ∧ p.arrivalTime source i = time }

def issued (p : Poller) (task : Int) (n : Nat) : List (Nat × Deed) :=
  (List.range n).map fun i => (p.issueTime (i + 1), .fetched task)

variable {source : Source} {p₀ p q : Poller} {task : Int} {n : Nat}

theorem issueTime_mono (p : Poller) {i j : Nat} (hle : i ≤ j) : p.issueTime i ≤ p.issueTime j :=
  Nat.add_le_add_left (Nat.mul_le_mul_right _ hle) _

theorem issueTime_le_arrivalTime (source : Source) (p : Poller) (i : Nat) :
    p.issueTime i ≤ p.arrivalTime source i :=
  Nat.le_add_right _ _

theorem issued_succ (p : Poller) (task : Int) (n : Nat) :
    p.issued task (n + 1) = p.issued task n ++ [(p.issueTime (n + 1), .fetched task)] := by
  simp [issued, List.range_succ]

-- The session goes on after some fetches. Those that are on their way and belong to it come back
-- when they should, and none of them was lost that will end it.
structure Following (source : Source) (p₀ : Poller) (task : Int) (n : Nat) (p : Poller) :
    Prop where
  interval : p.interval = p₀.interval
  session : p.session = p₀.session.start task p₀.begunTimers
  timers : p.timers = [⟨p₀.begunTimers, p₀.session.generation + 1, task, p₀.now, n⟩]
  fetches : p.fetches = p₀.fetches + n
  deeds : p.deeds = p₀.deeds ++ p₀.issued task n
  issued_le : p₀.issueTime n ≤ p.now
  now_le : p.now ≤ p₀.issueTime (n + 1)
  sent : ∀ f ∈ p.flights, f.generation = p₀.session.generation + 1 →
    p.now ≤ f.due ∧ f.task = task ∧ ∃ i, 1 ≤ i ∧ i ≤ n ∧
      f.due = p₀.arrivalTime source i ∧ f.result = p₀.answer source i
  flying : ∀ i, 1 ≤ i → i ≤ n → ¬ GoesOn (p₀.answer source i) →
    ∃ f ∈ p.flights, f.generation = p₀.session.generation + 1 ∧
      f.due = p₀.arrivalTime source i ∧ f.result = p₀.answer source i

-- A fetch is the first one that comes back with an end, and these are the fetches sent before.
structure Ends (source : Source) (p₀ : Poller) (n i : Nat) (v : Verdict) : Prop where
  pos : 1 ≤ i
  le_sent : i ≤ n
  verdict : Verdict.ofResult? (p₀.answer source i) = some v
  least : ∀ j, 1 ≤ j → ¬ GoesOn (p₀.answer source j) →
    p₀.arrivalTime source i ≤ p₀.arrivalTime source j
  issued_le : p₀.issueTime n ≤ p₀.arrivalTime source i
  le_next : p₀.arrivalTime source i ≤ p₀.issueTime (n + 1)

structure Ended (source : Source) (p₀ : Poller) (task : Int) (n i : Nat) (v : Verdict)
    (p : Poller) : Prop where
  ends : Ends source p₀ n i v
  session : p.session = (p₀.session.start task p₀.begunTimers).conclude v
  timers : p.timers = []
  fetches : p.fetches = p₀.fetches + n
  deeds : p.deeds = p₀.deeds ++ p₀.issued task n ++
    [(p₀.arrivalTime source i, .emitted ⟨task, v⟩)]
  le_now : p₀.arrivalTime source i ≤ p.now

-- What has become of the session: it goes on, it has ended, or it was given up.
inductive Phase (source : Source) (p₀ : Poller) (task : Int) (p : Poller) : Prop where
  | following (n : Nat) (hp : Following source p₀ task n p)
  | ended (n i : Nat) (v : Verdict) (hp : Ended source p₀ task n i v p)
  | superseded (hp : p₀.session.generation + 1 < p.session.generation)

theorem Ends.mem_endings {i : Nat} {v : Verdict} (he : Ends source p₀ n i v) :
    p₀.arrivalTime source i ∈ p₀.endings source := by
  refine ⟨i, he.pos, fun hgo => ?_, rfl⟩
  have hnone := ofResult?_eq_none_iff.mpr hgo
  rw [he.verdict] at hnone
  cases hnone

namespace Following

theorem isCurrent (hp : Following source p₀ task n p) :
    p.session.isCurrent (p₀.session.generation + 1) = true := by
  rw [hp.session, Session.isCurrent_iff]
  exact ⟨rfl, rfl⟩

theorem timely (hp : Following source p₀ task n p) : p.Timely := by
  intro t ht
  rw [hp.timers, List.mem_singleton] at ht
  rw [ht, hp.interval]
  exact ⟨hp.issued_le, hp.now_le⟩

theorem start {carried : List (Nat × Flight)} {h : History} (hs : Sound p₀ carried h)
    (task : Int) : Following source p₀ task 0 (p₀.start task) := by
  have hstart := onward_start p₀ task
  have hflights : (p₀.start task).flights = p₀.flights := hstart.flights
  have hnow : (p₀.start task).now = p₀.now := hstart.now
  refine ⟨hstart.interval, ?_, ?_, ?_, ?_, ?_, ?_, ?_, ?_⟩
  · unfold Poller.start
    rw [stopTimer_eq hs.timers]
    rfl
  · unfold Poller.start
    rw [stopTimer_eq hs.timers]
    rfl
  · unfold Poller.start
    rw [stopTimer_eq hs.timers]
    rfl
  · have hdeeds : (p₀.start task).deeds = p₀.deeds :=
      (silent_start Entry.ignores_deed? p₀ task).logged
    simp [issued, hdeeds]
  · simp [issueTime, hnow]
  · simp [issueTime, hnow]
  · intro f hf hg
    rw [hflights, hs.flights] at hf
    obtain ⟨c, hc, rfl⟩ := List.mem_map.mp hf
    have hle := (hs.carries c hc).generation_le
    rw [← hs.generation, hg] at hle
    omega
  · intro i hi hi'
    omega

theorem still (hp : Following source p₀ task n p) (hs : Still p q) :
    Following source p₀ task n q where
  interval := hs.agree.interval.trans hp.interval
  session := hs.agree.session.trans hp.session
  timers := hs.agree.timers.trans hp.timers
  fetches := hs.agree.fetches.trans hp.fetches
  deeds := hs.deeds.trans hp.deeds
  issued_le := hs.agree.now ▸ hp.issued_le
  now_le := hs.agree.now ▸ hp.now_le
  sent := by rw [hs.agree.flights, hs.agree.now]; exact hp.sent
  flying := by rw [hs.agree.flights]; exact hp.flying

theorem elapse (hp : Following source p₀ task n p) {time : Nat} (hle : p.now ≤ time)
    (hi : p.IdleUntil time) : Following source p₀ task n { p with now := time } where
  interval := hp.interval
  session := hp.session
  timers := hp.timers
  fetches := hp.fetches
  deeds := hp.deeds
  issued_le := Nat.le_trans hp.issued_le hle
  now_le := by
    have hdue := hi.timers _ (hp.timers ▸ List.mem_singleton.mpr rfl)
    rw [hp.interval] at hdue
    exact hdue
  sent := fun f hf hg => ⟨hi.flights f hf, (hp.sent f hf hg).2⟩
  flying := hp.flying

theorem tick (hp : Following source p₀ task n p) {t : Timer} (hm : t ∈ p.timers)
    (hd : t.due p.interval ≤ p.now) :
    Following source p₀ task (n + 1) (p.tick source t) := by
  rw [hp.timers, List.mem_singleton] at hm
  subst hm
  have hnow : p.now = p₀.issueTime (n + 1) := by
    rw [hp.interval] at hd
    exact Nat.le_antisymm hp.now_le hd
  have harrival : p.now + (source p.fetches).1 = p₀.arrivalTime source (n + 1) := by
    rw [hp.fetches, hnow]
    rfl
  have hanswer : (source p.fetches).2 = p₀.answer source (n + 1) := by
    rw [hp.fetches]
    rfl
  rw [tick_of_current source hp.isCurrent]
  refine ⟨hp.interval, hp.session, ?_, ?_, ?_, ?_, ?_, ?_, ?_⟩
  · simp [record, hp.timers, Timer.fire]
  · simp only [record, hp.fetches]
    omega
  · have hdeeds := hp.deeds
    unfold Poller.deeds at hdeeds ⊢
    rw [logged_record, issued_succ, ← List.append_assoc, ← hdeeds, ← hnow]
    rfl
  · simp only [record, hnow]
    exact Nat.le_refl _
  · simp only [record, hnow]
    exact issueTime_mono p₀ (Nat.le_succ _)
  · intro f hf hg
    rcases List.mem_append.mp hf with hf | hf
    · obtain ⟨hle, htask, i, hi, hin, hdue⟩ := hp.sent f hf hg
      exact ⟨hle, htask, i, hi, by omega, hdue⟩
    · obtain rfl := List.mem_singleton.mp hf
      exact ⟨Nat.le_add_right _ _, rfl, n + 1, by omega, by omega, harrival, hanswer⟩
  · intro i hi hin hgo
    by_cases he : i = n + 1
    · subst he
      exact ⟨_, List.mem_append_right _ (List.mem_singleton.mpr rfl), rfl, harrival, hanswer⟩
    · obtain ⟨f, hf, hfacts⟩ := hp.flying i hi (by omega) hgo
      exact ⟨f, List.mem_append_left _ hf, hfacts⟩

theorem erase (hp : Following source p₀ task n p) {place : Nat} {f : Flight}
    (hf : p.flights[place]? = some f)
    (hgo : f.generation = p₀.session.generation + 1 → GoesOn f.result) :
    Following source p₀ task n { p with flights := p.flights.eraseIdx place } where
  interval := hp.interval
  session := hp.session
  timers := hp.timers
  fetches := hp.fetches
  deeds := hp.deeds
  issued_le := hp.issued_le
  now_le := hp.now_le
  sent := fun g hg => hp.sent g (List.mem_of_mem_eraseIdx hg)
  flying := by
    intro i hi hin hends
    obtain ⟨g, hg, hgen, hdue, hresult⟩ := hp.flying i hi hin hends
    obtain ⟨other, hother⟩ := List.getElem?_of_mem hg
    have hne : other ≠ place := by
      rintro rfl
      obtain rfl : f = g := Option.some.inj (hf.symm.trans hother)
      exact hends (hresult ▸ hgo hgen)
    exact ⟨g, List.mem_eraseIdx_iff_getElem?.mpr ⟨other, hne, hother⟩, hgen, hdue, hresult⟩

theorem now_le_ending (hp : Following source p₀ task n p) {i : Nat} (hi : 1 ≤ i)
    (hends : ¬ GoesOn (p₀.answer source i)) : p.now ≤ p₀.arrivalTime source i := by
  by_cases hin : i ≤ n
  · obtain ⟨f, hf, hg, hdue, -⟩ := hp.flying i hi hin hends
    exact hdue ▸ (hp.sent f hf hg).1
  · -- it is not sent yet
    have hmono : p₀.issueTime (n + 1) ≤ p₀.issueTime i := issueTime_mono p₀ (by omega)
    exact Nat.le_trans hp.now_le (Nat.le_trans hmono (issueTime_le_arrivalTime source p₀ i))

theorem commit_of_goesOn (hp : Following source p₀ task n p) {f : Flight}
    (hgo : f.generation = p₀.session.generation + 1 → GoesOn f.result) :
    p.commit f.generation f.task f.result = (p, none) := by
  by_cases hg : f.generation = p₀.session.generation + 1
  · rw [commit_of_current f.task f.result (hg ▸ hp.isCurrent) (by rw [hp.session]; rfl),
      ofResult?_eq_none_iff.mpr (hgo hg)]
  · refine commit_of_stale f.task f.result ?_
    rw [← Bool.not_eq_true, Session.isCurrent_iff, hp.session]
    exact fun hcur => hg hcur.1.symm

theorem commit_of_end (hp : Following source p₀ task n p) (place : Nat) {f : Flight}
    {v : Verdict} (hg : f.generation = p₀.session.generation + 1)
    (hv : Verdict.ofResult? f.result = some v) :
    Poller.commit { p with flights := p.flights.eraseIdx place } f.generation f.task f.result =
      ({ p with
          flights := p.flights.eraseIdx place, timers := [], session := p.session.conclude v },
        some ⟨f.task, v⟩) := by
  have hcur : p.session.isCurrent f.generation = true := hg ▸ hp.isCurrent
  have hstop : p.timers.map Timer.number = p.session.timer.toList := by
    rw [hp.timers, hp.session]
    rfl
  have hcommit := commit_of_current (p := { p with flights := p.flights.eraseIdx place }) f.task
    f.result hcur (by rw [hp.session]; rfl)
  rw [hv, stopTimer_eq (p := { p with flights := p.flights.eraseIdx place }) hstop] at hcommit
  exact hcommit

theorem ended (hp : Following source p₀ task n p) {place : Nat} {f : Flight} {v : Verdict}
    (hf : p.flights[place]? = some f) (hd : f.due ≤ p.now)
    (hg : f.generation = p₀.session.generation + 1) (hv : Verdict.ofResult? f.result = some v) :
    ∃ i, Ended source p₀ task n i v (Poller.record
      { p with
        flights := p.flights.eraseIdx place, timers := [], session := p.session.conclude v }
      (.emitted ⟨f.task, v⟩)) := by
  obtain ⟨hle, htask, i, hi, hin, hdue, hresult⟩ := hp.sent f (List.mem_of_getElem? hf) hg
  -- it comes back when it is due or later, and the clock does not pass one on its way
  have hnow : p.now = p₀.arrivalTime source i := by omega
  refine ⟨i, ⟨hi, hin, hresult ▸ hv, ?_, ?_, ?_⟩, ?_, rfl, hp.fetches, ?_, ?_⟩
  · exact fun j hj hends => hnow ▸ hp.now_le_ending hj hends
  · exact hnow ▸ hp.issued_le
  · exact hnow ▸ hp.now_le
  · simp only [record, hp.session]
  · have hdeeds := hp.deeds
    unfold Poller.deeds at hdeeds ⊢
    rw [logged_record, ← hdeeds, ← hnow, htask]
    rfl
  · exact Nat.le_of_eq hnow.symm

-- With nothing left to do the clock stands before the next fetch and before the first end.
theorem lt_next_of_settled (hp : Following source p₀ task n p) (hs : p.Settled) :
    p.now < p₀.issueTime (n + 1) := by
  have hdue := hs.timers _ (hp.timers ▸ List.mem_singleton.mpr rfl)
  rw [hp.interval] at hdue
  exact hdue

theorem lt_ending_of_settled (hp : Following source p₀ task n p) (hs : p.Settled) {i : Nat}
    (hi : 1 ≤ i) (hends : ¬ GoesOn (p₀.answer source i)) : p.now < p₀.arrivalTime source i := by
  by_cases hin : i ≤ n
  · obtain ⟨f, hf, -, hdue, -⟩ := hp.flying i hi hin hends
    exact hdue ▸ hs.flights f hf
  · have hmono : p₀.issueTime (n + 1) ≤ p₀.issueTime i := issueTime_mono p₀ (by omega)
    exact Nat.lt_of_lt_of_le (hp.lt_next_of_settled hs)
      (Nat.le_trans hmono (issueTime_le_arrivalTime source p₀ i))

end Following

namespace Ended

variable {i : Nat} {v : Verdict}

theorem still (hp : Ended source p₀ task n i v p) (hs : Still p q) :
    Ended source p₀ task n i v q where
  ends := hp.ends
  session := hs.agree.session.trans hp.session
  timers := hs.agree.timers.trans hp.timers
  fetches := hs.agree.fetches.trans hp.fetches
  deeds := hs.deeds.trans hp.deeds
  le_now := hs.agree.now ▸ hp.le_now

theorem elapse (hp : Ended source p₀ task n i v p) {time : Nat} (hle : p.now ≤ time) :
    Ended source p₀ task n i v { p with now := time } :=
  ⟨hp.ends, hp.session, hp.timers, hp.fetches, hp.deeds, Nat.le_trans hp.le_now hle⟩

theorem erase (hp : Ended source p₀ task n i v p) (place : Nat) :
    Ended source p₀ task n i v { p with flights := p.flights.eraseIdx place } :=
  ⟨hp.ends, hp.session, hp.timers, hp.fetches, hp.deeds, hp.le_now⟩

theorem commit (hp : Ended source p₀ task n i v p) (f : Flight) :
    p.commit f.generation f.task f.result = (p, none) := by
  refine commit_of_stale f.task f.result ?_
  rw [hp.session]
  exact Session.conclude_isCurrent _ v _

end Ended

namespace Phase

theorem generation_le (hp : Phase source p₀ task p) :
    p₀.session.generation + 1 ≤ p.session.generation := by
  cases hp with
  | following n hp => exact Nat.le_of_eq (by rw [hp.session]; rfl)
  | ended n i v hp => exact Nat.le_of_eq (by rw [hp.session, Session.conclude_generation]; rfl)
  | superseded hp => exact Nat.le_of_lt hp

theorem of_lt (hp : Phase source p₀ task p) (hlt : p.session.generation < q.session.generation) :
    Phase source p₀ task q :=
  .superseded (Nat.lt_of_le_of_lt hp.generation_le hlt)

theorem still (hp : Phase source p₀ task p) (hs : Still p q) : Phase source p₀ task q := by
  cases hp with
  | following n hp => exact .following n (hp.still hs)
  | ended n i v hp => exact .ended n i v (hp.still hs)
  | superseded hp => exact .superseded (by rw [hs.agree.session]; exact hp)

theorem perform (hp : Phase source p₀ task p) (c : Command) :
    Phase source p₀ task (p.perform c) := by
  rcases still_or_lt_perform p c with hs | hlt
  · exact hp.still hs
  · exact hp.of_lt hlt

theorem elapse (hp : Phase source p₀ task p) {time : Nat} (hle : p.now ≤ time)
    (hi : p.IdleUntil time) : Phase source p₀ task { p with now := time } := by
  cases hp with
  | following n hp => exact .following n (hp.elapse hle hi)
  | ended n i v hp => exact .ended n i v (hp.elapse hle)
  | superseded hp => exact .superseded hp

theorem tick (hp : Phase source p₀ task p) {t : Timer} (ht : t ∈ p.timers)
    (hd : t.due p.interval ≤ p.now) : Phase source p₀ task (p.tick source t) := by
  cases hp with
  | following n hp => exact .following (n + 1) (hp.tick ht hd)
  | ended n i v hp => simp [hp.timers] at ht
  | superseded hp => exact .superseded (by rw [tick_session]; exact hp)

end Phase

end Poller

namespace Moment

open Poller

variable {source : Source} {p₀ : Poller} {task : Int} {m m' : Moment}

theorem phase_land (hp : Phase source p₀ task m.poller) {place session : Nat} {f : Flight}
    (hf : m.poller.flights[place]? = some f) (hd : f.due ≤ m.poller.now) :
    Phase source p₀ task (m.land place session f).poller := by
  unfold land
  cases hp with
  | following n hp =>
    by_cases hgo : f.generation = p₀.session.generation + 1 → GoesOn f.result
    · have herase := hp.erase hf hgo
      simp only [herase.commit_of_goesOn hgo]
      exact .following n herase
    · obtain ⟨hg, hends⟩ := Classical.not_imp.mp hgo
      obtain ⟨v, hv⟩ := Option.ne_none_iff_exists'.mp fun hv =>
        hends (ofResult?_eq_none_iff.mp hv)
      simp only [hp.commit_of_end place hg hv]
      obtain ⟨i, hended⟩ := hp.ended hf hd hg hv
      exact .ended n i v hended
  | ended n i v hp =>
    simp only [(hp.erase place).commit f]
    exact .ended n i v (hp.erase place)
  | superseded hp =>
    have hcommit := onward_commit { m.poller with flights := m.poller.flights.eraseIdx place }
      f.generation f.task f.result
    rcases hc : Poller.commit { m.poller with flights := m.poller.flights.eraseIdx place }
      f.generation f.task f.result with ⟨q, _ | o⟩
    all_goals
      rw [hc] at hcommit
      simp only [hc]
      exact .superseded (Nat.lt_of_lt_of_le hp hcommit.generation_le)

theorem phase_step (hm : m.Consistent) (hp : Phase source p₀ task m.poller) {e : Event}
    (he : m.Punctual e) (h : Step source m e m') : Phase source p₀ task m'.poller := by
  cases h with
  | idle | skip => exact hp
  | call => exact hp.still (still_record rfl _)
  | command => exact hp.perform _
  | publish => exact hp.still (still_publish _ _)
  | start | reset | close => exact hp.of_lt (by simp)
  | subscribe l => exact hp.still (still_subscribe _ l)
  | unsubscribe tag => exact hp.still (still_unsubscribe _ tag)
  | detach tag => exact hp.still (still_detach _ tag)
  | watch tag => exact hp.still (still_watch _ tag)
  | settle => exact hp.still (still_settle _)
  | elapse duration => exact hp.elapse (Nat.le_add_right _ _) he
  | tick _ ht => exact hp.tick ht (he _ ht rfl)
  | @land place session f _ hf =>
    have hflight : m.poller.flights[place]? = some f := by
      rw [hm.sound.flights, List.getElem?_map, hf]
      rfl
    exact phase_land hp hflight (he f hflight)

theorem phase_timed (hm : m.Consistent) (hp : Phase source p₀ task m.poller)
    (h : Timed source m m') : Phase source p₀ task m'.poller := by
  induction h with
  | refl => exact hp
  | @step m' e h he ih => exact phase_step (h.consistent hm) ih he (step_cases source m' e)

theorem land_history (m : Moment) (place session : Nat) (f : Flight) :
    ∃ more, (m.land place session f).history = m.history ++ .landed session f.result :: more := by
  unfold land
  generalize { m.poller with flights := m.poller.flights.eraseIdx place } = p
  rcases hc : p.commit f.generation f.task f.result with ⟨q, _ | o⟩ <;> simp only [hc]
  · exact ⟨[], rfl⟩
  · exact ⟨_, List.append_assoc _ _ _⟩

theorem start_of_history {e : Event}
    (hh : (m.step source e).history = m.history ++ [.started task]) :
    (m.step source e).poller = m.poller.start task := by
  have hstep := step_cases source m e
  generalize m.step source e = m' at hh hstep ⊢
  cases hstep with
  | @command c rest ha =>
    cases c with
    | start other =>
      obtain rfl : other = task := by simpa [Fact.ofCommand?] using hh
      rfl
    | reset | unsubscribe _ | observe => simp [Fact.ofCommand?] at hh
  | start other =>
    obtain rfl : other = task := by simpa using hh
    rfl
  | @land place session f =>
    obtain ⟨more, hmore⟩ := land_history m place session f
    rw [hmore, List.append_cancel_left_eq] at hh
    cases hh
  | tick => simp [tick] at hh
  | idle | skip | call | publish | reset | close | subscribe | unsubscribe | detach | watch
  | settle | elapse => simp at hh

-- A session sends a fetch at every multiple of the interval until the first one comes back that
-- ends it. Then it ends the way that one says, and its listeners are told at this very time.
theorem session_timeline {interval : Nat} {e : Event} (hm : Reached source interval m)
    (hstart : (m.step source e).history = m.history ++ [.started task])
    (hpass : Timed source (m.step source e) m')
    (halone : History.turns m'.history = History.turns (m.step source e).history) :
    ((∀ time ∈ m.poller.endings source, m'.poller.now < time) →
      m'.poller.session.state = .running ∧
      ∃ n, m'.poller.deeds = m.poller.deeds ++ m.poller.issued task n ∧
        (∀ i ≤ n, m.poller.issueTime i ≤ m'.poller.now) ∧
        (∀ i, m.poller.issueTime i < m'.poller.now → i ≤ n) ∧
        (m'.poller.Settled → ∀ i, m.poller.issueTime i ≤ m'.poller.now → i ≤ n)) ∧
    (∀ E, IsLeast (m.poller.endings source) E →
      E < m'.poller.now ∨ E = m'.poller.now ∧ m'.poller.Settled →
      ∃ n i v, 1 ≤ i ∧ m.poller.arrivalTime source i = E ∧
        Verdict.ofResult? (m.poller.answer source i) = some v ∧
        EndsIn (m.poller.answer source i) m'.poller.session.state m'.poller.session.error ∧
        m'.poller.deeds =
          m.poller.deeds ++ m.poller.issued task n ++ [(E, .emitted ⟨task, v⟩)] ∧
        (∀ j ≤ n, m.poller.issueTime j ≤ E) ∧ ∀ j, m.poller.issueTime j < E → j ≤ n) ∧
    ∀ duration, m'.agenda = [] → ∃ m'', Timed source m' m'' ∧ m''.agenda = [] ∧
      m''.poller = m'.poller.sleep source duration ∧ m''.poller.Settled := by
  have hpoller := start_of_history hstart
  have hfollowing : Following source m.poller task 0 (m.step source e).poller :=
    hpoller ▸ .start hm.consistent.sound task
  have hm₁ : (m.step source e).Consistent := consistent_step hm.consistent e
  have hm' : m'.Consistent := hpass.consistent hm₁
  have hphase := phase_timed hm₁ (.following 0 hfollowing) hpass
  -- without another turn the session was not given up
  have hgeneration : m'.poller.session.generation = m.poller.session.generation + 1 := by
    rw [hm'.sound.generation, halone, ← hm₁.sound.generation, hpoller, start_generation]
  refine ⟨fun hbefore => ?_, fun E hE hreached => ?_, fun duration ha => ?_⟩
  · cases hphase with
    | following n hp =>
      refine ⟨by rw [hp.session]; rfl, n, hp.deeds, fun i hi => ?_, fun i hi => ?_,
        fun hsettled i hi => ?_⟩
      · exact Nat.le_trans (issueTime_mono m.poller hi) hp.issued_le
      · by_contra hn
        have hmono : m.poller.issueTime (n + 1) ≤ m.poller.issueTime i :=
          issueTime_mono m.poller (by omega)
        have hnow := hp.now_le
        omega
      · by_contra hn
        have hmono : m.poller.issueTime (n + 1) ≤ m.poller.issueTime i :=
          issueTime_mono m.poller (by omega)
        have hnow := hp.lt_next_of_settled hsettled
        omega
    | ended n i v hp =>
      exact absurd (hbefore _ hp.ends.mem_endings) (Nat.not_lt_of_le hp.le_now)
    | superseded hp => omega
  · obtain ⟨⟨k, hk, hends, rfl⟩, hleast⟩ := hE
    cases hphase with
    | following n hp =>
      have hle := hp.now_le_ending hk hends
      rcases hreached with hlt | ⟨heq, hsettled⟩
      · omega
      · have hlt := hp.lt_ending_of_settled hsettled hk hends
        omega
    | ended n i v hp =>
      have heq : m.poller.arrivalTime source i = m.poller.arrivalTime source k :=
        Nat.le_antisymm (hp.ends.least k hk hends) (hleast hp.ends.mem_endings)
      rw [← heq]
      refine ⟨n, i, v, hp.ends.pos, rfl, hp.ends.verdict, ?_, hp.deeds, fun j hj => ?_,
        fun j hj => ?_⟩
      · rw [hp.session]
        exact endsIn_followed hp.ends.verdict _ _ _
      · exact Nat.le_trans (issueTime_mono m.poller hj) hp.ends.issued_le
      · by_contra hn
        have hmono : m.poller.issueTime (n + 1) ≤ m.poller.issueTime j :=
          issueTime_mono m.poller (by omega)
        have hle := hp.ends.le_next
        omega
    | superseded hp => omega
  · exact timed_sleep source hm' ha (hpass.timely hm₁ hfollowing.timely) duration

-- The first fetch of a session brings a success after a while, all others find it going on.
def overtaking : Source := fun n =>
  if n = 0 then (25, .ok ⟨none, none, .succeeded⟩) else (0, .ok ⟨none, none, .pending⟩)

theorem answer_overtaking {i : Nat} (hi : 1 < i) :
    (Poller.new 10).answer overtaking i = .ok ⟨none, none, .pending⟩ := by
  have hne : i - 1 ≠ 0 := by omega
  simp [answer, overtaking, Poller.new, hne]

theorem isLeast_overtaking : IsLeast ((Poller.new 10).endings overtaking) 35 := by
  refine ⟨⟨1, Nat.le_refl _, ?_, rfl⟩, ?_⟩
  · rintro ⟨s, hs, hd⟩
    obtain rfl := Except.ok.inj hs
    cases hd
  · rintro time ⟨i, hi, hends, rfl⟩
    by_cases hone : i = 1
    · exact Nat.le_of_eq (hone ▸ rfl)
    · rw [answer_overtaking (by omega)] at hends
      exact absurd ⟨_, rfl, rfl⟩ hends

-- Two more fetches are sent and come back before the first one does.
theorem session_timeline_overtaking :
    ∃ m' n, Timed overtaking ((initial 10).step overtaking (.start 7)) m' ∧
      m'.poller = ((Poller.new 10).start 7).sleep overtaking 50 ∧
      EndsIn (.ok ⟨none, none, .succeeded⟩) m'.poller.session.state m'.poller.session.error ∧
      m'.poller.deeds = (Poller.new 10).issued 7 n ++ [(35, .emitted ⟨7, .succeeded⟩)] := by
  have hm : Reached overtaking 10 (initial 10) := ⟨[], rfl⟩
  have hm₁ : ((initial 10).step overtaking (.start 7)).Consistent :=
    consistent_step (consistent_initial 10) _
  have hstart : ((initial 10).step overtaking (.start 7)).history =
      (initial 10).history ++ [.started 7] := rfl
  obtain ⟨m', hpass, ha, hpoller, -⟩ := (session_timeline hm hstart .refl rfl).2.2 50 rfl
  have halone : History.turns m'.history = 1 := by
    rw [← (hpass.consistent hm₁).sound.generation, hpoller]
    rfl
  have hlate : 35 < m'.poller.now := by
    rw [hpoller]
    decide
  obtain ⟨n, i, v, hi, -, hv, hends, hdeeds, -⟩ :=
    (session_timeline hm hstart hpass halone).2.1 35 isLeast_overtaking (.inl hlate)
  obtain rfl : i = 1 := by
    by_contra hone
    have hanswer : (initial 10).poller.answer overtaking i = .ok ⟨none, none, .pending⟩ :=
      answer_overtaking (by omega)
    rw [hanswer] at hv
    cases hv
  obtain rfl : Verdict.succeeded = v := Option.some.inj hv
  exact ⟨m', n, hpass, hpoller, hends, hdeeds⟩

end Moment

end BotConsole.Poll
