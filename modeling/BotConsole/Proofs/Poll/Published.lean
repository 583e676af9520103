import BotConsole.Proofs.Poll.Await
import BotConsole.Proofs.Poll.Coherent
import BotConsole.Proofs.Poll.Emission

namespace BotConsole.Poll

open BotConsole.Task (Failure Status)
open History

def Entry.published? : Entry → Option State
  | .published s => some s
  | _ => none

theorem Entry.overlooks_published? : Overlooks published? := ⟨fun _ _ => rfl, fun _ => rfl⟩

namespace Poller

variable {p q r : Poller}

-- A channel to which nothing was published yet shows `waiting`.
def states (p : Poller) : List State :=
  (p.logged Entry.published?).map Prod.snd

theorem states_publish (p : Poller) (s : State) : (p.publish s).states = p.states ++ [s] := by
  rw [publish, states, logged_record, List.map_append]
  rfl

-- From one poller to the other nothing is published.
structure Hushed (p q : Poller) : Prop where
  published : q.published = p.published
  silent : Silent Entry.published? p q

theorem Hushed.trans (hpq : Hushed p q) (hqr : Hushed q r) : Hushed p r :=
  ⟨hqr.published.trans hpq.published, hpq.silent.trans hqr.silent⟩

theorem Hushed.states (h : Hushed p q) : q.states = p.states :=
  congrArg (List.map Prod.snd) h.silent.logged

theorem hushed_record {e : Entry} (he : e.published? = none) (p : Poller) :
    Hushed p (p.record e) :=
  ⟨rfl, silent_record he p⟩

theorem hushed_stopTimer (p : Poller) : Hushed p p.stopTimer := by
  refine ⟨?_, silent_stopTimer _ p⟩
  unfold stopTimer
  split <;> rfl

theorem hushed_tick (source : Source) (p : Poller) (t : Timer) : Hushed p (p.tick source t) := by
  refine ⟨?_, silent_tick rfl source p⟩
  unfold tick
  split <;> rfl

theorem hushed_commit (p : Poller) (generation : Nat) (task : Int)
    (result : Except Failure Status) : Hushed p (p.commit generation task result).1 := by
  refine ⟨?_, silent_commit _ p generation task result⟩
  unfold commit
  split
  · rfl
  · exact (hushed_stopTimer p).published

theorem hushed_settle (p : Poller) : Hushed p p.settle := by
  refine ⟨settle_keeps (fun isOver p w => ?_) (fun _ _ => rfl) p,
    silent_settle Entry.overlooks_published? p⟩
  unfold look
  split <;> split <;> rfl

structure Publishes (p : Poller) (s : State) (q : Poller) : Prop where
  published : q.published = s
  states : q.states = p.states ++ [s]

theorem publishes_publish (p : Poller) (s : State) : p.Publishes s (p.publish s) :=
  ⟨rfl, states_publish p s⟩

theorem publishes_start (p : Poller) (task : Int) : p.Publishes .running (p.start task) := by
  refine ⟨rfl, (states_publish _ _).trans ?_⟩
  rw [← (hushed_stopTimer p).states]
  rfl

theorem publishes_reset (p : Poller) : p.Publishes .waiting p.reset := by
  refine ⟨rfl, (states_publish _ _).trans ?_⟩
  rw [← (hushed_stopTimer p).states]
  rfl

-- The channel shows what was published last, and no state that ends a session was published but
-- right after `running`.
structure Chronicled (p : Poller) : Prop where
  last : p.states.getLast?.getD .waiting = p.published
  preceded : ∀ before s after, p.states = before ++ s :: after → s.isTerminal = true →
    before.getLast? = some .running

namespace Chronicled

theorem new (interval : Nat) : Chronicled (.new interval) :=
  ⟨rfl, by simp [Poller.new, states, logged]⟩

theorem hushed (hp : Chronicled p) (h : Hushed p q) : Chronicled q :=
  ⟨by rw [h.states, h.published]; exact hp.last, by rw [h.states]; exact hp.preceded⟩

theorem publishes (hp : Chronicled p) {s : State} (hq : p.Publishes s q)
    (hs : s.isTerminal = true → p.published = .running) : Chronicled q := by
  refine ⟨by simp [hq.states, hq.published], ?_⟩
  intro before t after hsplit ht
  rw [hq.states] at hsplit
  rcases List.eq_nil_or_concat after with rfl | ⟨after, last, rfl⟩
  · -- this is what is published now; the channel showed the one before
    obtain ⟨rfl, hst⟩ := List.append_inj' hsplit rfl
    obtain rfl := (List.cons.inj hst).1
    have hlast := hp.last
    rw [hs ht] at hlast
    cases hget : p.states.getLast? with
    | none => simp [hget] at hlast
    | some last => simpa [hget] using hlast
  · rw [List.concat_eq_append, ← List.cons_append, ← List.append_assoc] at hsplit
    exact hp.preceded before t after (List.append_inj' hsplit rfl).1 ht

end Chronicled

end Poller

namespace Poller

variable {p q r : Poller} {generation : Nat}

-- As long as the session is not given up it stays as it is, and nothing is published.
structure Abides (p q : Poller) : Prop where
  generation_le : p.session.generation ≤ q.session.generation
  session : q.session.generation = p.session.generation → q.session = p.session
  states : q.session.generation = p.session.generation → q.states = p.states

namespace Abides

theorem of_hushed (ha : Agree p q) (h : Hushed p q) : Abides p q :=
  ⟨Nat.le_of_eq (congrArg Session.generation ha.session.symm), fun _ => ha.session,
    fun _ => h.states⟩

theorem trans (hpq : Abides p q) (hqr : Abides q r) : Abides p r := by
  have hle := hpq.generation_le
  have hle' := hqr.generation_le
  refine ⟨Nat.le_trans hle hle', fun hg => ?_, fun hg => ?_⟩
  · exact (hqr.session (by omega)).trans (hpq.session (by omega))
  · exact (hqr.states (by omega)).trans (hpq.states (by omega))

theorem foldl {α : Type} {f : Poller → α → Poller} (hf : ∀ p a, Abides p (f p a))
    (items : List α) (p : Poller) : Abides p (items.foldl f p) := by
  induction items generalizing p with
  | nil => exact ⟨Nat.le_refl _, fun _ => rfl, fun _ => rfl⟩
  | cons a items ih => exact (hf p a).trans (ih (f p a))

end Abides

theorem abides_perform (p : Poller) (c : Command) : Abides p (p.perform c) := by
  have hgiven : ∀ {q : Poller}, q.session.generation = p.session.generation + 1 → Abides p q :=
    fun hg => ⟨by omega, fun h => by omega, fun h => by omega⟩
  cases c with
  | start task => exact hgiven (start_generation p task)
  | reset => exact hgiven (reset_generation p)
  | unsubscribe tag =>
    exact .of_hushed (agree_unsubscribe p tag) ⟨rfl, silent_unsubscribe _ p tag⟩
  | observe => exact .of_hushed (agree_record p _) (hushed_record rfl p)

theorem abides_call (p : Poller) (o : Outcome) (number : Nat) (l : Listener) :
    Abides p (p.call o number l) := by
  unfold call
  split
  · exact (Abides.of_hushed (agree_record p _) (hushed_record rfl p)).trans
      (.foldl abides_perform _ _)
  · exact .foldl abides_perform [] p

theorem abides_emit (p : Poller) (o : Outcome) : Abides p (p.emit o) :=
  (Abides.of_hushed (agree_record p _) (hushed_record rfl p)).trans
    (.foldl (fun p (number, l) => abides_call p o number l) _ _)

-- What the channel shows while the end of a session is being told: that the session is running,
-- unless a listener has given it up.
inductive Owes (p : Poller) (generation : Nat) : Prop where
  | due (hg : p.session.generation = generation) (hp : p.published = .running)
    (hs : p.session.state.isTerminal = true)
  | lapsed (hg : generation < p.session.generation) (hp : p.published = p.session.state)

theorem Owes.generation_le (h : p.Owes generation) : generation ≤ p.session.generation := by
  cases h with
  | due hg => exact Nat.le_of_eq hg.symm
  | lapsed hg => exact Nat.le_of_lt hg

theorem Owes.congr (h : p.Owes generation) (hs : q.session = p.session)
    (hp : q.published = p.published) : q.Owes generation := by
  cases h with
  | due hg hp' hs' => exact .due (hs ▸ hg) (hp.trans hp') (hs ▸ hs')
  | lapsed hg hp' => exact .lapsed (hs ▸ hg) (by rw [hp, hs]; exact hp')

theorem Owes.perform (h : p.Owes generation) (c : Command) : (p.perform c).Owes generation := by
  have hle := h.generation_le
  cases c with
  | start task => exact .lapsed (Nat.lt_of_le_of_lt hle (by simp [Poller.perform])) rfl
  | reset => exact .lapsed (Nat.lt_of_le_of_lt hle (by simp [Poller.perform])) rfl
  | unsubscribe tag => exact h.congr rfl rfl
  | observe => exact h.congr rfl rfl

end Poller

def Pending.isPublish : Pending → Bool
  | .publish _ => true
  | _ => false

inductive EndsWithPublish (generation : Nat) : List Pending → Prop where
  | publish : EndsWithPublish generation [.publish generation]
  | cons {next : Pending} {rest : List Pending} (hn : next.isPublish = false)
    (h : EndsWithPublish generation rest) : EndsWithPublish generation (next :: rest)

theorem EndsWithPublish.append {generation : Nat} {items rest : List Pending}
    (hi : ∀ next ∈ items, next.isPublish = false) (h : EndsWithPublish generation rest) :
    EndsWithPublish generation (items ++ rest) := by
  induction items with
  | nil => exact h
  | cons next items ih =>
    exact .cons (hi next (.head _)) (ih fun next hn => hi next (.tail _ hn))

namespace Moment

variable {m m' : Moment} {source : Source} {e : Event} {s : State} {q : Poller}

-- What the channel shows is the state, but where the end of a session is being told.
inductive Heard (m : Moment) : Prop where
  | idle (ha : m.agenda = []) (hp : m.poller.published = m.poller.session.state)
  | telling {generation : Nat} (ha : EndsWithPublish generation m.agenda)
    (ho : m.poller.Owes generation)

theorem Heard.published_of_idle (hm : m.Heard) (ha : m.agenda = []) :
    m.poller.published = m.poller.session.state := by
  cases hm with
  | idle _ hp => exact hp
  | telling ha' =>
    rw [ha] at ha'
    cases ha'

theorem Heard.of_publish (hm : m.Heard) {rest : List Pending}
    (ha : m.agenda = .publish m.poller.session.generation :: rest) :
    rest = [] ∧ m.poller.published = .running ∧ m.poller.session.state.isTerminal = true := by
  cases hm with
  | idle ha' => rw [ha] at ha'; cases ha'
  | telling ha' ho =>
    rw [ha] at ha'
    cases ha' with
    | publish =>
      cases ho with
      | due _ hp hs => exact ⟨rfl, hp, hs⟩
      | lapsed hg => exact absurd hg (Nat.lt_irrefl _)
    | cons hn => cases hn

theorem heard_land (ha : m.agenda = []) (hp : m.poller.published = m.poller.session.state)
    (place session : Nat) (f : Flight) : (m.land place session f).Heard := by
  unfold land
  generalize hq : { m.poller with flights := m.poller.flights.eraseIdx place } = p
  have hp' : p.published = p.session.state := hq ▸ hp
  have hcommit := (Poller.hushed_commit p f.generation f.task f.result).published
  rcases hc : p.commit f.generation f.task f.result with ⟨q, _ | o⟩
  · simp only [hc]
    refine .idle ha ?_
    rw [hc] at hcommit
    unfold Poller.commit at hc
    split at hc <;> cases hc
    exact hp'
  · simp only [hc]
    rw [hc] at hcommit
    obtain ⟨hcur, hq⟩ := Poller.session_of_commit hc
    have hrunning := (Session.isCurrent_iff.mp hcur).2
    have hcalls : ∀ next ∈ Pending.calls session o q.subscriptions.registry.entries,
        next.isPublish = false := by
      intro next hn
      obtain ⟨_, -, rfl⟩ := List.mem_map.mp hn
      rfl
    have hg := Poller.generation_of_commit hc
    refine .telling (.append hcalls .publish) (.due hg ?_ ?_)
    · exact hcommit.trans (hp'.trans hrunning)
    · show q.session.state.isTerminal = true
      rw [hq]
      cases o.verdict <;> rfl

theorem heard_step (hm : m.Heard) (h : Step source m e m') : m'.Heard := by
  have hidle : ∀ {p : Poller} {carried : List (Nat × Flight)} {history : History},
      m.agenda = [] → p.session = m.poller.session → p.published = m.poller.published →
      Heard { m with poller := p, carried, history } :=
    fun ha hs hp => .idle ha (hp.trans (hs ▸ hm.published_of_idle ha))
  cases h with
  | idle => exact hm
  | @skip next rest ha hn =>
    cases hm with
    | idle ha' => rw [ha] at ha'; cases ha'
    | telling ha' ho =>
      rw [ha] at ha'
      cases ha' with
      | publish =>
        cases ho with
        | due hg => exact absurd (congrArg Pending.publish hg.symm) hn
        | lapsed _ hp => exact .idle rfl hp
      | cons _ h => exact .telling h ho
  | call ha =>
    cases hm with
    | idle ha' => rw [ha] at ha'; cases ha'
    | telling ha' ho =>
      rw [ha] at ha'
      cases ha' with
      | cons _ h => exact .telling (.append (by simp [Pending.isPublish]) h) (ho.congr rfl rfl)
  | command ha =>
    cases hm with
    | idle ha' => rw [ha] at ha'; cases ha'
    | telling ha' ho =>
      rw [ha] at ha'
      cases ha' with
      | cons _ h => exact .telling h (ho.perform _)
  | publish ha hg =>
    subst hg
    exact .idle (hm.of_publish ha).1 rfl
  | start task ha => exact .idle ha rfl
  | reset ha => exact .idle ha rfl
  | close ha =>
    have hp := hm.published_of_idle ha
    refine .idle ha ?_
    simpa [Poller.close, Session.abandon, (Poller.hushed_stopTimer m.poller).published] using hp
  | subscribe l ha => exact hidle ha rfl rfl
  | unsubscribe tag ha => exact hidle ha rfl rfl
  | detach tag ha => exact hidle ha rfl rfl
  | watch tag ha => exact hidle ha rfl rfl
  | settle ha =>
    exact hidle ha (Poller.agree_settle m.poller).session (Poller.hushed_settle m.poller).published
  | elapse duration ha => exact hidle ha rfl rfl
  | tick ha =>
    exact hidle ha (Poller.tick_session source m.poller _)
      (Poller.hushed_tick source m.poller _).published
  | land ha => exact heard_land ha (hm.published_of_idle ha) _ _ _

theorem hushed_land (m : Moment) (place session : Nat) (f : Flight) :
    m.poller.Hushed (m.land place session f).poller := by
  have herase : m.poller.Hushed { m.poller with flights := m.poller.flights.eraseIdx place } :=
    ⟨rfl, rfl, id⟩
  unfold land
  generalize { m.poller with flights := m.poller.flights.eraseIdx place } = p at herase ⊢
  have hcommit := herase.trans (Poller.hushed_commit p f.generation f.task f.result)
  rcases hc : p.commit f.generation f.task f.result with ⟨q, _ | o⟩
  · simp only [hc] at hcommit ⊢
    exact hcommit
  · simp only [hc] at hcommit ⊢
    exact hcommit.trans (Poller.hushed_record rfl q)

theorem hushed_or_publishes (h : Step source m e m') :
    m.poller.Hushed m'.poller ∨ ∃ s, m.poller.Publishes s m'.poller ∧
      (s.isTerminal = true → s = m.poller.session.state ∧
        ∃ rest, m.agenda = .publish m.poller.session.generation :: rest) := by
  cases h with
  | idle | skip => exact .inl ⟨rfl, .refl _ _⟩
  | call => exact .inl (Poller.hushed_record rfl _)
  | @command c rest ha =>
    cases c with
    | start task => exact .inr ⟨_, Poller.publishes_start _ task, nofun⟩
    | reset => exact .inr ⟨_, Poller.publishes_reset _, nofun⟩
    | unsubscribe tag => exact .inl ⟨rfl, Poller.silent_unsubscribe _ _ tag⟩
    | observe => exact .inl (Poller.hushed_record rfl _)
  | publish ha hg =>
    subst hg
    exact .inr ⟨_, Poller.publishes_publish _ _, fun _ => ⟨rfl, _, ha⟩⟩
  | start task => exact .inr ⟨_, Poller.publishes_start _ task, nofun⟩
  | reset => exact .inr ⟨_, Poller.publishes_reset _, nofun⟩
  | close => exact .inl ⟨(Poller.hushed_stopTimer _).published, Poller.silent_close _ _⟩
  | subscribe l => exact .inl ⟨rfl, Poller.silent_subscribe _ _ l⟩
  | unsubscribe tag => exact .inl ⟨rfl, Poller.silent_unsubscribe _ _ tag⟩
  | detach tag => exact .inl ⟨rfl, Poller.silent_detach _ _ tag⟩
  | watch tag => exact .inl ⟨rfl, Poller.silent_watch _ _ tag⟩
  | settle => exact .inl (Poller.hushed_settle _)
  | elapse duration => exact .inl ⟨rfl, Poller.silent_elapse _ _ _⟩
  | tick => exact .inl (Poller.hushed_tick source _ _)
  | land => exact .inl (hushed_land _ _ _ _)

theorem chronicled_step (hm : m.Heard) (hc : m.poller.Chronicled) (h : Step source m e m') :
    m'.poller.Chronicled := by
  rcases hushed_or_publishes h with hq | ⟨s, hq, hs⟩
  · exact hc.hushed hq
  · refine hc.publishes hq fun ht => ?_
    obtain ⟨-, rest, ha⟩ := hs ht
    exact (hm.of_publish ha).2.1

theorem heard_run (source : Source) (interval : Nat) (events : List Event) :
    ((initial interval).run source events).Heard ∧
      ((initial interval).run source events).poller.Chronicled := by
  induction events using List.reverseRecOn with
  | nil => exact ⟨.idle rfl rfl, .new interval⟩
  | append_singleton events e ih =>
    rw [run_concat]
    have hstep := step_cases source ((initial interval).run source events) e
    exact ⟨heard_step ih.1 hstep, chronicled_step ih.1 ih.2 hstep⟩

theorem Reached.heard {interval : Nat} (hm : Reached source interval m) : m.Heard := by
  obtain ⟨events, rfl⟩ := hm
  exact (heard_run source interval events).1

theorem publish_of_terminal (hm : m.Heard) (hq : (m.step source e).poller.states =
    m.poller.states ++ [s]) (hs : s.isTerminal = true) :
    s = m.poller.session.state ∧ m.agenda = [.publish m.poller.session.generation] := by
  rcases hushed_or_publishes (step_cases source m e) with h | ⟨t, h, ht⟩
  · rw [h.states] at hq
    simp at hq
  · rw [h.states, List.append_cancel_left_eq] at hq
    obtain rfl := (List.cons.inj hq).1
    obtain ⟨heq, rest, ha⟩ := ht hs
    rw [(hm.of_publish ha).1] at ha
    exact ⟨heq, ha⟩

theorem Heard.eq_of_ending? (hm : m.Heard) (hs : m.poller.ending? = some s) :
    s ≠ .running ∧ s = m.poller.session.state := by
  obtain ⟨hne, rfl⟩ := Poller.ending?_eq_some_iff.mp hs
  refine ⟨hne, ?_⟩
  cases hm with
  | idle _ hp => exact hp
  | telling _ ho =>
    cases ho with
    | due _ hp => exact absurd hp hne
    | lapsed _ hp => exact hp

section Concludes

variable {place session : Nat} {f : Flight} {o : Outcome} {interval : Nat}

theorem Concludes.generation (hc : m.Concludes place session f q o) :
    m.poller.session.generation = f.generation ∧ q.session.generation = f.generation ∧
      q.session.state = o.verdict.leaves.1 ∧ q.states = m.poller.states := by
  obtain ⟨hcur, hq⟩ := Poller.session_of_commit hc.commit
  have hsilent := (Poller.hushed_commit { m.poller with
    flights := m.poller.flights.eraseIdx place } f.generation f.task f.result).states
  rw [hc.commit] at hsilent
  refine ⟨(Session.isCurrent_iff.mp hcur).1, Poller.generation_of_commit hc.commit, ?_, hsilent⟩
  rw [hq]
  cases o.verdict <;> rfl

theorem Concludes.reached (hm : Reached source interval m)
    (hc : m.Concludes place session f q o) : Reached source interval (m.land place session f) := by
  have haccept := hm.accept hc.idle (.land place)
  simpa only [accept, hc.carried] using haccept

theorem Reached.generation (hm : Reached source interval m) (ho : m.poller.isOpen = true) :
    m.poller.session.generation = restarts m.history := by
  have hs := hm.consistent.sound
  obtain ⟨events, rfl⟩ := hm
  rw [hs.generation, turns_eq_restarts (closed_notMem_run source interval events ho)]

-- The end of a session is published after the listeners were called, and not where one of them
-- began another session or gave it up.
theorem Concludes.publishes (hm : Reached source interval m)
    (hc : m.Concludes place session f q o) :
    ∃ m', LeadsTo source (m.land place session f) m' ∧ m'.agenda = [] ∧
      (restarts m'.history = restarts m.history →
        m'.poller = (q.emit o).publish o.verdict.leaves.1 ∧
        m'.poller.states = m.poller.states ++ [o.verdict.leaves.1]) ∧
      (restarts m'.history ≠ restarts m.history → m'.poller = q.emit o) := by
  obtain ⟨history, htold⟩ := hc.leadsTo source
  obtain ⟨hg, hgq, hleaves, hstates⟩ := hc.generation
  have hland : (m.land place session f).poller.isOpen = true := by
    obtain ⟨_, hland⟩ := hc.land
    refine (hc.reached hm).consistent.isOpen ?_
    simp [hland]
  have hopen : m.poller.isOpen = true := (land_isOpen m place session f).symm.trans hland
  have htold' := (hc.reached hm).leadsTo htold
  have hopen' := htold'.consistent.isOpen (List.cons_ne_nil _ _)
  have hrestarts : restarts history = restarts m.history ↔
      (q.emit o).session.generation = f.generation := by
    have hgeneration : (q.emit o).session.generation = restarts history :=
      htold'.generation hopen'
    rw [hgeneration, ← hm.generation hopen, hg]
  have hpublish := htold.trans (LeadsTo.work source rfl)
  by_cases hsame : (q.emit o).session.generation = f.generation
  · have habides := Poller.abides_emit q o
    have hstate : (q.emit o).session.state = o.verdict.leaves.1 := by
      rw [habides.session (hsame.trans hgq.symm), hleaves]
    simp only [work, hsame, beq_self_eq_true, if_true, hstate] at hpublish
    refine ⟨_, hpublish, rfl, fun _ => ⟨rfl, ?_⟩, fun hne => absurd (hrestarts.mpr hsame) hne⟩
    rw [Poller.states_publish, habides.states (hsame.trans hgq.symm), hstates]
  · simp only [work, beq_iff_eq, hsame, if_false] at hpublish
    exact ⟨_, hpublish, rfl, fun heq => absurd (hrestarts.mp heq) hsame, fun _ => rfl⟩

end Concludes

end Moment

-- The channel shows the state whenever no end of a session is being told. A state that ends a
-- session is published as the last thing of its emission, unless a listener restarted or reset
-- the poller.
theorem channel_follows_session (source : Source) (interval : Nat) (events : List Event) :
    let m := (Moment.initial interval).run source events
    (m.agenda = [] → m.poller.published = m.poller.session.state) ∧
    (∀ e s, (m.step source e).poller.states = m.poller.states ++ [s] → s.isTerminal = true →
      s = m.poller.session.state ∧
      ∃ m₀ place session f q o, Moment.Reached source interval m₀ ∧
        m₀.Concludes place session f q o ∧
        Moment.LeadsTo source (m₀.land place session f) m ∧
        m.agenda = [.publish f.generation] ∧ m.poller.session.generation = f.generation ∧
        m.poller = q.emit o ∧ m.poller.tellings = q.tellings ++ q.announcement o ∧
        s = o.verdict.leaves.1) ∧
    (∀ place session f q o, m.Concludes place session f q o →
      ∃ m', Moment.LeadsTo source (m.land place session f) m' ∧ m'.agenda = [] ∧
        (restarts m'.history = restarts m.history →
          m'.poller = (q.emit o).publish o.verdict.leaves.1 ∧
          m'.poller.states = m.poller.states ++ [o.verdict.leaves.1]) ∧
        (restarts m'.history ≠ restarts m.history → m'.poller = q.emit o)) ∧
    (∀ before s after, m.poller.states = before ++ s :: after → s.isTerminal = true →
      before.getLast? = some .running) ∧
    (∀ s, m.poller.ending? = some s → s ≠ .running ∧ s = m.poller.session.state) ∧
    ∀ limit q s, m.agenda = [] → m.poller.Timely → m.poller.await source limit = (q, some s) →
      s ≠ .running ∧ s = q.session.state := by
  intro m
  have hm : Moment.Reached source interval m := ⟨events, rfl⟩
  obtain ⟨hheard, hchronicled⟩ := Moment.heard_run source interval events
  refine ⟨hheard.published_of_idle, fun e s hs ht => ?_, fun place session f q o hc =>
    hc.publishes hm, hchronicled.preceded, fun s => hheard.eq_of_ending?,
    fun limit q s ha htimely hawait => ?_⟩
  · obtain ⟨heq, ha⟩ := Moment.publish_of_terminal hheard hs ht
    have hbusy : m.agenda ≠ [] := by
      rw [ha]
      exact List.cons_ne_nil _ _
    obtain ⟨m₀, place, session, f, q, o, hm₀, hc, hlead⟩ :=
      Moment.exists_concludes source interval events hbusy
    obtain ⟨hpoller, hg⟩ := hc.poller_eq hlead ha
    obtain ⟨-, hgq, hleaves, -⟩ := hc.generation
    refine ⟨heq, m₀, place, session, f, q, o, hm₀, hc, hlead, hg ▸ ha, hg, hpoller, ?_, ?_⟩
    · rw [← Poller.tellings_emit, ← hpoller]
    · have hsession : (q.emit o).session = q.session := by
        refine (Poller.abides_emit q o).session ?_
        rw [← hpoller, hgq]
        exact hg
      rw [heq, ← hleaves, ← hsession]
      exact congrArg (fun p : Poller => p.session.state) hpoller
  · have hsteady : m.poller.Steady := ⟨⟨_, _, hm.consistent.sound⟩, htimely⟩
    have hawaited := Poller.awaited_await source hsteady limit
    rw [hawait] at hawaited
    obtain ⟨m', htimed, -, rfl⟩ := Moment.timed_of_passes hm.consistent ha hawaited.passes
    exact (htimed.reached hm).heard.eq_of_ending? hawaited.ending.symm

-- The listener starts another task when the first one has failed. The failure is never published;
-- the success of the second task is, right after `running`, and that is what waiting for it gives.
theorem channel_follows_session_retrying :
    (let m := (Moment.initial 1000).run recovering (retrying ++ [.work])
    m.agenda = [] ∧ m.poller.published = m.poller.session.state) ∧
    (let m := (Moment.initial 1000).run recovering (retrying.take 3)
    ∃ q, m.Concludes 0 0 ⟨1, 7, 0, .error (.transport "gone")⟩ q
        ⟨7, .failed (.transport "gone")⟩ ∧
      ((Moment.initial 1000).run recovering (retrying ++ [.work])).poller =
        q.emit ⟨7, .failed (.transport "gone")⟩) ∧
    (let m := (Moment.initial 1000).run recovering (retrying ++ [.work, .tick 1, .land 0, .work])
    State.success = m.poller.session.state ∧
      ∃ generation, m.agenda = [.publish generation]) ∧
    (let m := (Moment.initial 1000).run recovering
      (retrying ++ [.work, .tick 1, .land 0, .work, .work])
    m.poller.states = [.running, .running] ++ .success :: [] ∧
      [State.running, State.running].getLast? = some .running ∧
      m.poller.ending? = some .success ∧ State.success = m.poller.session.state) ∧
    (((Poller.new 5).start 7).await recovering 10).2 = some .error ∧
    State.error = (((Poller.new 5).start 7).await recovering 10).1.session.state := by
  obtain ⟨hidle, -⟩ := channel_follows_session recovering 1000 (retrying ++ [.work])
  obtain ⟨-, -, hpublishes, -⟩ := channel_follows_session recovering 1000 (retrying.take 3)
  obtain ⟨-, hlast, -⟩ := channel_follows_session recovering 1000
    (retrying ++ [.work, .tick 1, .land 0, .work])
  obtain ⟨-, -, -, hpreceded, hending, -⟩ := channel_follows_session recovering 1000
    (retrying ++ [.work, .tick 1, .land 0, .work, .work])
  obtain ⟨-, -, -, -, -, hawait⟩ := channel_follows_session recovering 5 [.start 7]
  obtain ⟨hstate, _, _, _, f, _, _, -, -, -, hagenda, -⟩ := hlast .work .success rfl rfl
  have hconcludes : ((Moment.initial 1000).run recovering (retrying.take 3)).Concludes 0 0
      ⟨1, 7, 0, .error (.transport "gone")⟩ _ ⟨7, .failed (.transport "gone")⟩ := ⟨rfl, rfl, rfl⟩
  have htold : Moment.LeadsTo recovering
      (((Moment.initial 1000).run recovering (retrying.take 3)).land 0 0
        ⟨1, 7, 0, .error (.transport "gone")⟩)
      ((Moment.initial 1000).run recovering (retrying ++ [.work])) := ⟨3, rfl⟩
  obtain ⟨m', hlead, ha', -, hrestarted⟩ := hpublishes _ _ _ _ _ hconcludes
  have hend := hlead.eq_of_idle htold ha' rfl
  rw [hend] at hrestarted
  have htimely : ((Poller.new 5).start 7).Timely :=
    Poller.Timely.onward (fun _ ht => absurd ht List.not_mem_nil) (Poller.onward_start (.new 5) 7)
  have hawaited : (((Poller.new 5).start 7).await recovering 10).2 = some .error := rfl
  have herror := hawait 10 (((Poller.new 5).start 7).await recovering 10).1 .error rfl htimely
    (Prod.ext rfl hawaited)
  exact ⟨⟨rfl, hidle rfl⟩, ⟨_, hconcludes, hrestarted (by decide)⟩, ⟨hstate, _, hagenda⟩,
    ⟨rfl, hpreceded [.running, .running] .success [] rfl rfl, rfl, (hending .success rfl).2⟩,
    hawaited, herror.2⟩

end BotConsole.Poll
