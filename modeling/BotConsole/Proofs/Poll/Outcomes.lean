import BotConsole.Proofs.Poll.Consistent
import BotConsole.Proofs.Poll.Lawful
import BotConsole.Proofs.Poll.Logged

namespace BotConsole.Poll

open BotConsole.Task (Failure Status)
open History

-- What listeners are told: that a session has ended, and who is called for it.
inductive Telling where
  | emitted (outcome : Outcome)
  | called (number : Nat) (interest : Interest) (outcome : Outcome)

def Entry.telling? : Entry → Option Telling
  | .emitted o => some (.emitted o)
  | .called number _ interest o => some (.called number interest o)
  | _ => none

theorem Entry.ignores_telling? : Ignores telling? :=
  ⟨⟨fun _ _ => rfl, fun _ => rfl⟩, fun _ => rfl, fun _ _ _ => rfl⟩

def Fact.telling? : Fact → Option Telling
  | .emitted _ o _ _ => some (.emitted o)
  | .called _ number interest o => some (.called number interest o)
  | _ => none

def Poller.tellings (p : Poller) : List Telling :=
  (p.logged Entry.telling?).map Prod.snd

theorem Poller.tellings_record (p : Poller) (e : Entry) :
    (p.record e).tellings = p.tellings ++ e.telling?.toList := by
  rw [tellings, logged_record, List.map_append]
  cases e.telling? <;> rfl

theorem Session.followed_leaves (generation : Nat) (task : Option Int) (number : Nat)
    (v : Verdict) :
    ((followed generation task number (some v)).state,
      (followed generation task number (some v)).error) = v.leaves := by
  cases v <;> rfl

def Pending.call? : Pending → Option (Nat × Nat)
  | .call session _ number _ => some (session, number)
  | _ => none

theorem Pending.call?_calls (session : Nat) (o : Outcome) (entries : List (Nat × Listener)) :
    (calls session o entries).filterMap call? = entries.map fun entry => (session, entry.1) := by
  induction entries with
  | nil => rfl
  | cons entry entries ih => simpa [calls, call?] using ih

theorem Pending.call?_commands (commands : List Command) :
    (commands.map command).filterMap call? = [] := by
  simp [call?]

theorem Fact.call?_of_telling? {f : Fact} (hf : f.telling? = none) : f.call? = none := by
  cases f with
  | called _ _ _ _ => cases hf
  | _ => rfl

theorem History.allows_of_telling? {h : History} {f : Fact} (hf : f.telling? = none) :
    Allows h f := by
  cases f with
  | emitted _ _ _ _ | called _ _ _ _ => cases hf
  | _ => trivial

namespace Moment

-- The log tells what the history tells, which is lawful. No call that is still to be made was
-- made before or stands twice on the agenda.
structure Orderly (m : Moment) : Prop where
  lawful : Lawful m.history
  tellings : m.poller.tellings = m.history.filterMap Fact.telling?
  numbered : m.poller.subscriptions.registry.Numbered
  distinct : (m.agenda.filterMap Pending.call?).Nodup
  told : ∀ session o number l, Pending.call session o number l ∈ m.agenda →
    ∃ state error, Fact.emitted session o state error ∈ m.history
  uncalled : ∀ key ∈ m.agenda.filterMap Pending.call?, key ∉ calls m.history

variable {m m' : Moment} {source : Source} {q : Poller} {f : Fact}

namespace Orderly

theorem initial (interval : Nat) : (Moment.initial interval).Orderly where
  lawful := lawful_nil
  tellings := rfl
  numbered := Event.Registry.numbered_empty
  distinct := .nil
  told := by simp [Moment.initial]
  uncalled := by simp [Moment.initial]

theorem silent (hm : m.Orderly) (hq : Poller.Silent Entry.telling? m.poller q)
    (carried : List (Nat × Flight)) : Orderly { m with poller := q, carried } where
  lawful := hm.lawful
  tellings := (congrArg (List.map Prod.snd) hq.logged).trans hm.tellings
  numbered := hq.numbered hm.numbered
  distinct := hm.distinct
  told := hm.told
  uncalled := hm.uncalled

theorem note (hm : m.Orderly) (hf : f.telling? = none) :
    Orderly { m with history := m.history ++ [f] } where
  lawful := lawful_append_iff.mpr ⟨hm.lawful, allows_of_telling? hf⟩
  tellings := by simpa [List.filterMap_append, hf] using hm.tellings
  numbered := hm.numbered
  distinct := hm.distinct
  told := by
    intro session o number l hc
    obtain ⟨state, error, he⟩ := hm.told session o number l hc
    exact ⟨state, error, List.mem_append_left _ he⟩
  uncalled := by simpa [Fact.call?_of_telling? hf] using hm.uncalled

theorem rest (hm : m.Orderly) {next : Pending} {rest : List Pending}
    (ha : m.agenda = next :: rest) : Orderly { m with agenda := rest } where
  lawful := hm.lawful
  tellings := hm.tellings
  numbered := hm.numbered
  distinct := hm.distinct.sublist (by rw [ha]; exact (List.sublist_cons_self next rest).filterMap _)
  told := fun session o number l hc => hm.told session o number l (ha ▸ List.mem_cons_of_mem _ hc)
  uncalled := by
    intro key hk
    refine hm.uncalled key ?_
    rw [ha]
    exact ((List.sublist_cons_self next rest).filterMap _).subset hk

theorem call (hm : m.Orderly) {session number : Nat} {o : Outcome} {l : Listener}
    {rest : List Pending} (ha : m.agenda = .call session o number l :: rest)
    (hcovers : l.interest.covers o.verdict = true) :
    Orderly { m with
      poller := m.poller.record (.called number l.tag l.interest o)
      agenda := (l.react (m.poller.callsOf number) o).map .command ++ rest
      history := m.history ++ [.called session number l.interest o] } := by
  -- the call leaves the agenda as it enters the history
  have hkey : (session, number) ∈ m.agenda.filterMap Pending.call? := by simp [ha, Pending.call?]
  have hkeys : (((l.react (m.poller.callsOf number) o).map Pending.command ++ rest).filterMap
      Pending.call?) = rest.filterMap Pending.call? := by
    rw [List.filterMap_append, Pending.call?_commands, List.nil_append]
  have hdistinct := hm.distinct
  simp only [ha, List.filterMap_cons, Pending.call?, List.nodup_cons] at hdistinct
  constructor
  · refine lawful_append_iff.mpr ⟨hm.lawful, hcovers, ?_, hm.uncalled _ hkey⟩
    exact hm.told session o number l (by simp [ha])
  · rw [Poller.tellings_record, hm.tellings]
    simp [List.filterMap_append, Entry.telling?, Fact.telling?]
  · exact hm.numbered
  · rw [hkeys]
    exact hdistinct.2
  · intro k o' n l' hc
    have hc' : Pending.call k o' n l' ∈ rest := by simpa using hc
    obtain ⟨state, error, he⟩ := hm.told k o' n l' (ha ▸ List.mem_cons_of_mem _ hc')
    exact ⟨state, error, List.mem_append_left _ he⟩
  · intro key hk hcalled
    rw [hkeys] at hk
    simp only [calls_append, Fact.call?, Option.toList_some, List.mem_append,
      List.mem_singleton] at hcalled
    rcases hcalled with hcalled | rfl
    · refine hm.uncalled key ?_ hcalled
      simp only [ha, List.filterMap_cons, Pending.call?]
      exact List.mem_cons_of_mem _ hk
    · exact hdistinct.1 hk

theorem command (hm : m.Orderly) {c : Command} {rest : List Pending}
    (ha : m.agenda = .command c :: rest) :
    Orderly { m with
      poller := m.poller.perform c
      agenda := rest
      history := m.history ++ (Fact.ofCommand? c).toList } := by
  have hsilent := (hm.rest ha).silent
    (Poller.silent_perform Entry.ignores_telling? m.poller c) m.carried
  cases c with
  | start task => exact hsilent.note rfl
  | reset => exact hsilent.note rfl
  | unsubscribe tag => simpa [Fact.ofCommand?] using hsilent
  | observe => simpa [Fact.ofCommand?] using hsilent

theorem emit (hm : m.Orderly) {session : Nat} (generation : Nat) {o : Outcome}
    (hallows : Allows m.history
      (.emitted session o m.poller.session.state m.poller.session.error)) :
    (m.emit session generation o).Orderly := by
  have hkeys : (m.emit session generation o).agenda.filterMap Pending.call? =
      (m.poller.subscriptions.registry.entries.map Prod.fst).map (session, ·) := by
    simp [Moment.emit, Pending.call?_calls, List.filterMap_cons, Pending.call?,
      Function.comp_def]
  constructor
  · exact lawful_append_iff.mpr ⟨hm.lawful, hallows⟩
  · simp only [Moment.emit, Poller.tellings_record, hm.tellings]
    simp [List.filterMap_append, Entry.telling?, Fact.telling?]
  · exact hm.numbered
  · rw [hkeys]
    exact List.Nodup.map (fun _ _ he => (Prod.mk.inj he).2) hm.numbered.nodup
  · intro k o' number l hc
    have hentry : Pending.call k o' number l ∈
        Pending.calls session o m.poller.subscriptions.registry.entries := by
      simpa [Moment.emit] using hc
    obtain ⟨entry, -, he⟩ := List.mem_map.mp hentry
    obtain ⟨rfl, rfl, -⟩ := Pending.call.inj he
    exact ⟨_, _, List.mem_append_right _ (List.mem_singleton.mpr rfl)⟩
  · intro key hk hcalled
    rw [hkeys, List.mem_map] at hk
    obtain ⟨number, -, rfl⟩ := hk
    obtain ⟨-, -, -, -, hnew⟩ := hallows
    have hcalled' : (session, number) ∈ calls m.history := by
      simpa [Moment.emit, Fact.call?] using hcalled
    exact hnew (hm.lawful.ended_of_call hcalled')

theorem land (hm : m.Orderly) (hs : Sound m.poller m.carried m.history) {place session : Nat}
    {f : Flight} (hf : m.carried[place]? = some (session, f)) :
    (m.land place session f).Orderly := by
  have hcar : Carries m.history session f := hs.carries _ (List.mem_of_getElem? hf)
  have herase := hs.erase place
  have hland := herase.land hcar
  have hsilent : Poller.Silent Entry.telling? m.poller
      { m.poller with flights := m.poller.flights.eraseIdx place } := ⟨rfl, id⟩
  unfold Moment.land
  generalize { m.poller with flights := m.poller.flights.eraseIdx place } = p
    at herase hland hsilent ⊢
  have hcommit := hsilent.trans (Poller.silent_commit _ p f.generation f.task f.result)
  rcases hc : p.commit f.generation f.task f.result with ⟨q, _ | o⟩
  · simp only [hc] at hcommit ⊢
    exact (hm.silent hcommit (m.carried.eraseIdx place)).note rfl
  · simp only [hc] at hland hcommit ⊢
    obtain ⟨hcur, hv, htask, hr⟩ := herase.of_outcome hcar hc
    have hcur' : current? (m.history ++ [.landed session f.result]) = some session := by
      rw [current?_append rfl, hcur]
    have hv' : verdict? session (m.history ++ [.landed session f.result]) = some o.verdict := by
      simp [hv, Fact.result?, hr]
    have hsession := (hland.current session hcur').2
    rw [hv'] at hsession
    refine ((hm.silent hcommit (m.carried.eraseIdx place)).note rfl).emit f.generation
      ⟨hcur', ?_, hv', ?_, ?_⟩
    · simpa [Fact.task?, htask] using hcar.task
    · simp only [hsession]
      exact Session.followed_leaves _ _ _ _
    · -- who was told of has a verdict already
      intro hended
      have hsome := (hm.lawful.verdict?_of_ended (by simpa [Fact.ended?] using hended)).1
      simp [hv] at hsome

theorem of_step (hm : m.Orderly) (hs : Sound m.poller m.carried m.history) {e : Event}
    (h : Step source m e m') : m'.Orderly := by
  have hi := Entry.ignores_telling?
  cases h with
  | idle => exact hm
  | skip ha => exact hm.rest ha
  | call ha hcovers => exact hm.call ha hcovers
  | command ha => exact hm.command ha
  | publish ha => exact (hm.rest ha).silent (Poller.silent_publish hi _ _) m.carried
  | start task => exact (hm.silent (Poller.silent_start hi _ task) _).note rfl
  | reset => exact (hm.silent (Poller.silent_reset hi _) _).note rfl
  | close => exact (hm.silent (Poller.silent_close _ _) _).note rfl
  | subscribe l => exact hm.silent (Poller.silent_subscribe _ _ l) _
  | unsubscribe tag => exact hm.silent (Poller.silent_unsubscribe _ _ tag) _
  | detach tag => exact hm.silent (Poller.silent_detach _ _ tag) _
  | watch tag => exact hm.silent (Poller.silent_watch _ _ tag) _
  | settle => exact hm.silent (Poller.silent_settle hi.toOverlooks _) _
  | elapse duration => exact hm.silent (Poller.silent_elapse _ _ _) _
  | tick => exact hm.silent (Poller.silent_tick rfl source _) _
  | land _ hf => exact hm.land hs hf

theorem run (source : Source) (hm : m.Orderly) (hc : m.Consistent) (events : List Event) :
    (m.run source events).Orderly := by
  induction events generalizing m with
  | nil => exact hm
  | cons e events ih =>
    have hstep := hm.of_step hc.sound (step_cases source m e)
    exact ih hstep (consistent_step hc e)

end Orderly

end Moment

-- The ends of sessions are told in the order in which the sessions were started, each at most
-- once and while its session is the current one. No listener is called twice for one session.
theorem outcomes_once_in_order (source : Source) (interval : Nat) (events : List Event) :
    let m := (Moment.initial interval).run source events
    m.poller.tellings = m.history.filterMap Fact.telling? ∧
    (ended m.history).Pairwise (· < ·) ∧
    (∀ before session o state error after,
      m.history = before ++ .emitted session o state error :: after →
      current? before = some session ∧ (tasks m.history)[session]? = some o.task) ∧
    (calls m.history).Nodup ∧
    ∀ before session number interest o after,
      m.history = before ++ .called session number interest o :: after →
      ∃ state error, .emitted session o state error ∈ before ∧
        (interest = .success → state = .success) ∧
        (interest = .failure →
          state = .error ∧ ∃ f, o.verdict = .failed f ∧ error = some f.message) := by
  intro m
  have hm : m.Orderly := Moment.Orderly.run source (.initial interval)
    (Moment.consistent_initial interval) events
  have hlawful := hm.lawful
  refine ⟨hm.tellings, hlawful.ended_ascending, ?_, hlawful.calls_nodup, ?_⟩
  · intro before session o state error after hh
    obtain ⟨hcur, htask, -⟩ := hlawful before _ after hh
    exact ⟨hcur, hh ▸ tasks_getElem?_append _ htask⟩
  · intro before session number interest o after hh
    obtain ⟨hcovers, ⟨state, error, he⟩, -⟩ := hlawful before _ after hh
    obtain ⟨first, second, rfl⟩ := List.append_of_mem he
    obtain ⟨-, -, -, hleaves, -⟩ := hlawful first (.emitted session o state error)
      (second ++ .called session number interest o :: after) (by simp [hh])
    refine ⟨state, error, he, ?_, ?_⟩
    · rintro rfl
      cases hv : o.verdict with
      | succeeded =>
        rw [hv] at hleaves
        exact (Prod.mk.inj hleaves).1
      | failed f => simp [Interest.covers, hv] at hcovers
    · rintro rfl
      cases hv : o.verdict with
      | succeeded => simp [Interest.covers, hv] at hcovers
      | failed f =>
        rw [hv] at hleaves
        exact ⟨(Prod.mk.inj hleaves).1, f, rfl, (Prod.mk.inj hleaves).2⟩

-- The first listener starts another task while the second one still waits to be called.
theorem outcomes_once_in_order_restarted :
    let m := (Moment.initial 1000).run (fun _ => (0, .error (.transport "gone")))
      [.subscribe ⟨"again", .outcome, fun _ _ => [.start 8]⟩,
        .subscribe ⟨"alarm", .failure, fun _ _ => []⟩,
        .start 7, .tick 0, .land 0, .work, .work, .work, .work]
    (tasks m.history)[0]? = some 7 ∧ ∃ state error,
      Fact.emitted 0 ⟨7, .failed (.transport "gone")⟩ state error ∈ m.history ∧
        state = .error ∧ error = some "gone" := by
  let o : Outcome := ⟨7, .failed (.transport "gone")⟩
  let ended : History := [.started 7, .landed 0 (.error (.transport "gone"))]
  let called : History := [.emitted 0 o .error (some "gone"), .called 0 0 .outcome o, .started 8]
  obtain ⟨-, -, htold, -, hcalled⟩ := outcomes_once_in_order
    (fun _ => (0, .error (.transport "gone"))) 1000
    [.subscribe ⟨"again", .outcome, fun _ _ => [.start 8]⟩,
      .subscribe ⟨"alarm", .failure, fun _ _ => []⟩,
      .start 7, .tick 0, .land 0, .work, .work, .work, .work]
  obtain ⟨state, error, he, -, hfailure⟩ := hcalled (ended ++ called) 0 1 .failure o [] rfl
  obtain ⟨hstate, f, hf, herror⟩ := hfailure rfl
  obtain rfl := Verdict.failed.inj hf
  have hm : Fact.emitted 0 o state error ∈ ended ++ called ++ [.called 0 1 .failure o] :=
    List.mem_append_left _ he
  exact ⟨(htold ended 0 o .error (some "gone") _ rfl).2, state, error, hm, hstate, herror⟩

end BotConsole.Poll
