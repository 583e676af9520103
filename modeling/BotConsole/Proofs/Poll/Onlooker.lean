import BotConsole.Proofs.Poll.Published
import BotConsole.Proofs.Poll.Timeline

namespace BotConsole.Poll

open BotConsole.Task (Failure Status)

theorem endsIn_leaves {r : Except Failure Status} {v : Verdict}
    (hv : Verdict.ofResult? r = some v) : EndsIn r v.leaves.1 v.leaves.2 := by
  have h := endsIn_followed hv 0 none 0
  cases v <;> exact h

-- A listener that asks for nothing when it is called.
def Listener.IsOnlooker (l : Listener) : Prop :=
  ∀ calls o, l.react calls o = []

namespace Poller

variable {p p₀ q r : Poller} {source : Source} {task : Int} {n i : Nat} {v : Verdict}

def OnlyOnlookers (p : Poller) : Prop :=
  ∀ entry ∈ p.subscriptions.registry.entries, entry.2.IsOnlooker

structure Unheard (p q : Poller) : Prop where
  subscriptions : q.subscriptions = p.subscriptions
  tellings : q.tellings = p.tellings

theorem Unheard.trans (hpq : Unheard p q) (hqr : Unheard q r) : Unheard p r :=
  ⟨hqr.subscriptions.trans hpq.subscriptions, hqr.tellings.trans hpq.tellings⟩

theorem stopTimer_subscriptions (p : Poller) : p.stopTimer.subscriptions = p.subscriptions := by
  unfold stopTimer
  split <;> rfl

theorem unheard_start (p : Poller) (task : Int) : Unheard p (p.start task) :=
  ⟨stopTimer_subscriptions p, (silent_start Entry.ignores_telling? p task).tellings⟩

theorem unheard_tick (source : Source) (p : Poller) (t : Timer) : Unheard p (p.tick source t) := by
  refine ⟨?_, (silent_tick rfl source p).tellings⟩
  unfold tick
  split <;> rfl

theorem unheard_settle (p : Poller) : Unheard p p.settle := by
  refine ⟨settle_keeps (fun isOver p w => ?_) (fun _ _ => rfl) p,
    (silent_settle Entry.ignores_telling?.toOverlooks p).tellings⟩
  unfold look
  split <;> split <;> rfl

theorem call_of_onlooker {l : Listener} (hl : l.IsOnlooker) (p : Poller) (o : Outcome)
    (number : Nat) :
    Still p (p.call o number l) ∧ (p.call o number l).subscriptions = p.subscriptions := by
  unfold call
  split
  · rw [hl]
    exact ⟨still_record rfl p, rfl⟩
  · exact ⟨⟨.refl p, rfl⟩, rfl⟩

theorem foldl_call_of_onlookers {entries : List (Nat × Listener)}
    (hl : ∀ entry ∈ entries, entry.2.IsOnlooker) (p : Poller) (o : Outcome) :
    Still p (entries.foldl (fun p (number, l) => p.call o number l) p) ∧
      (entries.foldl (fun p (number, l) => p.call o number l) p).subscriptions =
        p.subscriptions := by
  induction entries generalizing p with
  | nil => exact ⟨⟨.refl p, rfl⟩, rfl⟩
  | cons entry entries ih =>
    obtain ⟨number, l⟩ := entry
    obtain ⟨hstill, hsame⟩ := call_of_onlooker (hl _ (.head _)) p o number
    obtain ⟨hstill', hsame'⟩ := ih (fun entry he => hl entry (.tail _ he)) (p.call o number l)
    exact ⟨⟨hstill.agree.trans hstill'.agree, hstill'.deeds.trans hstill.deeds⟩,
      hsame'.trans hsame⟩

theorem emit_of_onlookers (hp : p.OnlyOnlookers) (o : Outcome) :
    Still (p.record (.emitted o)) (p.emit o) ∧ (p.emit o).subscriptions = p.subscriptions :=
  foldl_call_of_onlookers hp _ o

theorem deliver_of_onlookers (hp : p.OnlyOnlookers) (o : Outcome) :
    p.deliver p.session.generation o = (p.emit o).publish p.session.state := by
  have hsession : (p.emit o).session = p.session := (emit_of_onlookers hp o).1.agree.session
  simp [deliver, hsession]

-- A session that only onlookers listen to goes on and nobody was told anything, or it has ended
-- and everybody was told so.
inductive Observed (source : Source) (p₀ : Poller) (task : Int) (p : Poller) : Prop where
  | following (n : Nat) (hp : Following source p₀ task n p) (hu : Unheard p₀ p)
  | ended (n i : Nat) (v : Verdict) (hp : Ended source p₀ task n i v p)
    (hs : p.subscriptions = p₀.subscriptions)
    (ht : p.tellings = p₀.tellings ++ p₀.announcement ⟨task, v⟩)

theorem Observed.still (hp : Observed source p₀ task p) (hs : Still p q) (hu : Unheard p q) :
    Observed source p₀ task q := by
  cases hp with
  | following n hp hu' => exact .following n (hp.still hs) (hu'.trans hu)
  | ended n i v hp hs' ht =>
    exact .ended n i v (hp.still hs) (hu.subscriptions.trans hs') (hu.tellings.trans ht)

theorem Following.land_of_end (hp : Following source p₀ task n p) (hu : Unheard p₀ p)
    (honly : p₀.OnlyOnlookers) {place : Nat} {f : Flight} (hf : p.flights[place]? = some f)
    (hd : f.due ≤ p.now) (hg : f.generation = p₀.session.generation + 1)
    (hends : ¬ GoesOn f.result) : Observed source p₀ task (p.land place f) := by
  obtain ⟨v, hv⟩ := Option.ne_none_iff_exists'.mp fun hv => hends (ofResult?_eq_none_iff.mp hv)
  obtain ⟨i, hended⟩ := hp.ended hf hd hg hv
  have hcommit := hp.commit_of_end place hg hv
  have htask : f.task = task := (hp.sent f (List.mem_of_getElem? hf) hg).2.1
  rw [land_of_commit_some hcommit, ← generation_of_commit hcommit]
  generalize hq : ({ p with
    flights := p.flights.eraseIdx place, timers := [], session := p.session.conclude v } : Poller) =
    q at hended ⊢
  have htold : Unheard p₀ q := hq ▸ ⟨hu.subscriptions, hu.tellings⟩
  have honly' : q.OnlyOnlookers := by
    unfold OnlyOnlookers
    rw [htold.subscriptions]
    exact honly
  obtain ⟨hstill, hsame⟩ := emit_of_onlookers honly' ⟨f.task, v⟩
  have hannounced : q.announcement ⟨f.task, v⟩ = p₀.announcement ⟨task, v⟩ := by
    rw [announcement, htold.subscriptions, htask]
    rfl
  rw [deliver_of_onlookers honly']
  refine .ended n i v ((hended.still hstill).still (still_publish _ _)) ?_ ?_
  · exact hsame.trans htold.subscriptions
  · rw [(silent_publish Entry.ignores_telling? _ _).tellings, tellings_emit, htold.tellings,
      hannounced]

theorem Observed.land (hp : Observed source p₀ task p) (honly : p₀.OnlyOnlookers) {place : Nat}
    {f : Flight} (hf : p.flights[place]? = some f) (hd : f.due ≤ p.now) :
    Observed source p₀ task (p.land place f) := by
  cases hp with
  | following n hp hu =>
    by_cases hgo : f.generation = p₀.session.generation + 1 → GoesOn f.result
    · have herase := hp.erase hf hgo
      rw [land_of_commit_none (herase.commit_of_goesOn hgo)]
      exact .following n herase ⟨hu.subscriptions, hu.tellings⟩
    · obtain ⟨hg, hends⟩ := Classical.not_imp.mp hgo
      exact hp.land_of_end hu honly hf hd hg hends
  | ended n i v hp hs ht =>
    rw [land_of_commit_none ((hp.erase place).commit f)]
    exact .ended n i v (hp.erase place) hs ht

theorem observed_passes {carried : List (Nat × Flight)} {h : History} (hs : Sound p₀ carried h)
    (honly : p₀.OnlyOnlookers) (hq : Passes source (p₀.start task) q) :
    Observed source p₀ task q := by
  induction hq with
  | refl => exact .following 0 (.start hs task) (unheard_start p₀ task)
  | settle _ ih => exact ih.still (still_settle _) (unheard_settle _)
  | @elapse q time _ hle hi ih =>
    cases ih with
    | following n hp hu => exact .following n (hp.elapse hle hi) ⟨hu.subscriptions, hu.tellings⟩
    | ended n i v hp hs ht => exact .ended n i v (hp.elapse hle) hs ht
  | @happen q due event _ hh hle ih =>
    cases event with
    | tick t =>
      obtain ⟨hmem, hdue⟩ := hh
      cases ih with
      | following n hp hu =>
        exact .following (n + 1) (hp.tick hmem (hdue ▸ hle)) (hu.trans (unheard_tick source q t))
      | ended n i v hp =>
        rw [hp.timers] at hmem
        cases hmem
    | landing place f =>
      obtain ⟨hf, hdue⟩ := hh
      exact ih.land honly hf (hdue ▸ hle)

-- A fetch that ends the session and comes back before the next one is sent is the last one, if all
-- before it let the session go on, however late those come back.
theorem Ends.eq_of_prompt (he : Ends source p₀ n i v) {last : Nat}
    (hfirst : ∀ k < last, GoesOn (source (p₀.fetches + k)).2)
    (hends : ¬ GoesOn (source (p₀.fetches + last)).2)
    (hprompt : (source (p₀.fetches + last)).1 < p₀.interval) : i = last + 1 ∧ n = last + 1 := by
  have hpos := he.pos
  have hlt : p₀.arrivalTime source (last + 1) < p₀.issueTime (last + 2) := by
    have hdelay : (source (p₀.fetches + (last + 1 - 1))).1 < p₀.interval := hprompt
    simp only [arrivalTime, issueTime, Nat.add_mul] at hdelay ⊢
    omega
  have hi : i = last + 1 := by
    refine Nat.le_antisymm ?_ ?_
    · by_contra hgt
      have hleast := he.least (last + 1) (Nat.le_add_left _ _) hends
      have hmono : p₀.issueTime (last + 2) ≤ p₀.issueTime i := issueTime_mono p₀ (by omega)
      have harrival := issueTime_le_arrivalTime source p₀ i
      omega
    · by_contra hless
      have hgo := hfirst (i - 1) (by omega)
      have hnone := ofResult?_eq_none_iff.mpr hgo
      have hverdict := he.verdict
      unfold answer at hverdict
      rw [hnone] at hverdict
      cases hverdict
  subst hi
  refine ⟨rfl, Nat.le_antisymm ?_ he.le_sent⟩
  by_contra hgt
  have hmono : p₀.issueTime (last + 2) ≤ p₀.issueTime n := issueTime_mono p₀ (by omega)
  have hissued := he.issued_le
  omega

end Poller

namespace Moment

open Poller

variable {source : Source} {m : Moment} {interval : Nat}

-- Who waits for a task that only onlookers listen to learns of its end by the first fetch that
-- does not let it go on, which is the last one.
theorem await_start (hm : Reached source interval m) (ha : m.agenda = [])
    (ho : m.poller.isOpen = true) (honly : m.poller.OnlyOnlookers) (task : Int) {last limit : Nat}
    (hfirst : ∀ k < last, GoesOn (source (m.poller.fetches + k)).2)
    (hends : ¬ GoesOn (source (m.poller.fetches + last)).2)
    (hprompt : (source (m.poller.fetches + last)).1 < m.poller.interval)
    (hlimit : (last + 1) * m.poller.interval + (source (m.poller.fetches + last)).1 ≤ limit) :
    ∃ q v, (m.poller.start task).await source limit = (q, some v.leaves.1) ∧
      EndsIn (source (m.poller.fetches + last)).2 v.leaves.1 v.leaves.2 ∧
      q.fetches = m.poller.fetches + (last + 1) ∧ q.session.error = v.leaves.2 ∧
      q.tellings = m.poller.tellings ++ m.poller.announcement ⟨task, v⟩ := by
  have hs := hm.consistent.sound
  have hm₁ := hm.accept ha (.start task)
  have ha₁ : (m.accept source (.start task)).agenda = [] := by simp [accept, ho, ha]
  have hp₁ : (m.accept source (.start task)).poller = m.poller.start task := by simp [accept, ho]
  have hstart : Following source m.poller task 0 (m.poller.start task) := .start hs task
  have hsteady : (m.poller.start task).Steady :=
    ⟨⟨_, _, hp₁ ▸ hm₁.consistent.sound⟩, hstart.timely⟩
  have hnow : (m.poller.start task).now = m.poller.now := (onward_start m.poller task).now
  have hawaited := awaited_await source hsteady limit
  generalize hawait : (m.poller.start task).await source limit = done at hawaited ⊢
  obtain ⟨q, s?⟩ := done
  have hheard : q.published = q.session.state := by
    obtain ⟨m', htimed, ha', rfl⟩ :=
      timed_of_passes hm₁.consistent ha₁ (hp₁.symm ▸ hawaited.passes)
    exact (htimed.reached hm₁).heard.published_of_idle ha'
  have hending := hawaited.ending
  cases observed_passes hs honly hawaited.passes with
  | following n hp =>
    have hnone : q.ending? = none := by
      rw [ending?, hheard, hp.session]
      rfl
    have hover := hawaited.expired (hending.trans hnone)
    have hlt := hp.lt_ending_of_settled hawaited.settled (Nat.le_add_left 1 last) hends
    simp only [arrivalTime, issueTime, Nat.add_sub_cancel] at hlt
    simp only [hnow] at hover
    omega
  | ended n i v hp hsub ht =>
    obtain ⟨rfl, rfl⟩ := hp.ends.eq_of_prompt hfirst hends hprompt
    have hstate : q.session.state = v.leaves.1 ∧ q.session.error = v.leaves.2 ∧
        v.leaves.1 ≠ .running := by
      rw [hp.session]
      cases v <;> exact ⟨rfl, rfl, by simp [Verdict.leaves]⟩
    have hsome : q.ending? = some v.leaves.1 :=
      ending?_eq_some_iff.mpr ⟨hstate.2.2, hheard.trans hstate.1⟩
    obtain rfl : s? = some v.leaves.1 := hending.trans hsome
    exact ⟨q, v, rfl, endsIn_leaves hp.ends.verdict, hp.fetches, hstate.2.1, ht⟩

end Moment

end BotConsole.Poll
