import BotConsole.Proofs.Poll.FirstVerdict
import BotConsole.Proofs.Poll.Outcomes
import BotConsole.Proofs.Task.Reply

namespace BotConsole.Poll

open BotConsole.Task (Client Failure Reply Status)
open History

namespace Moment

variable {m m' : Moment} {source : Source} {e : Event}

-- Whatever is on its way or has come back is what the source gave.
structure Brought (given : Except Failure Status → Prop) (m : Moment) : Prop where
  carried : ∀ c ∈ m.carried, given c.2.result
  landed : ∀ session r, Fact.landed session r ∈ m.history → given r

theorem brought_step {given : Except Failure Status → Prop} (hsource : ∀ n, given (source n).2)
    (hm : m.Brought given) (h : Step source m e m') : m'.Brought given := by
  have hnote : ∀ {f : Fact}, (∀ session r, f ≠ .landed session r) →
      ∀ session r, Fact.landed session r ∈ m.history ++ [f] → given r := by
    intro f hf session r hr
    rcases List.mem_append.mp hr with hr | hr
    · exact hm.landed session r hr
    · exact absurd (List.mem_singleton.mp hr).symm (hf session r)
  cases h with
  | idle | skip | publish | subscribe | unsubscribe | detach | watch | settle | elapse =>
    exact ⟨hm.carried, hm.landed⟩
  | call | start | reset | close => exact ⟨hm.carried, hnote (by simp)⟩
  | @command c rest ha =>
    refine ⟨hm.carried, ?_⟩
    cases c with
    | start | reset => exact hnote (by simp)
    | unsubscribe | observe => simpa [Fact.ofCommand?] using hm.landed
  | @tick t ha ht =>
    refine ⟨fun c hc => ?_, hm.landed⟩
    rcases List.mem_append.mp hc with hc | hc
    · exact hm.carried c hc
    · obtain ⟨f, hf, rfl⟩ := List.mem_map.mp hc
      by_cases hcur : m.poller.session.isCurrent t.generation = true
      · rw [Poller.tick_of_current source hcur] at hf
        obtain rfl : f = _ := by simpa [Poller.record] using hf
        exact hsource _
      · simp [Poller.tick, hcur] at hf
  | @land place session f ha hf =>
    have hgiven : given f.result := hm.carried _ (List.mem_of_getElem? hf)
    have hlanded : ∀ k r, Fact.landed k r ∈ m.history ++ [.landed session f.result] → given r := by
      intro k r hr
      rcases List.mem_append.mp hr with hr | hr
      · exact hm.landed k r hr
      · obtain ⟨-, rfl⟩ := Fact.landed.inj (List.mem_singleton.mp hr)
        exact hgiven
    have hcarried : ∀ c ∈ m.carried.eraseIdx place, given c.2.result :=
      fun c hc => hm.carried c (List.mem_of_mem_eraseIdx hc)
    unfold land
    dsimp only
    split
    · exact ⟨hcarried, hlanded⟩
    · exact ⟨hcarried, fun k r hr => hlanded k r (by simpa [emit] using hr)⟩

-- What holds of everything that the source gives holds of everything that comes back.
theorem given_results {given : Except Failure Status → Prop} (hsource : ∀ n, given (source n).2)
    (interval : Nat) (events : List Event) (session : Nat) :
    ∀ r ∈ results session ((initial interval).run source events).history, given r := by
  have hm : ((initial interval).run source events).Brought given := by
    induction events using List.reverseRecOn with
    | nil => exact ⟨nofun, nofun⟩
    | append_singleton events e ih =>
      rw [run_concat]
      exact brought_step hsource ih (step_cases source _ e)
  intro r hr
  obtain ⟨f, hf, hresult⟩ := List.mem_filterMap.mp hr
  cases f with
  | landed k r' =>
    by_cases hk : k = session
    · obtain rfl : r' = r := by simpa [Fact.result?, hk] using hresult
      exact hm.landed k r' hf
    · simp [Fact.result?, hk] at hresult
  | started | reset | closed | emitted | called => cases hresult

end Moment

-- The end of the session that is current was told as soon as there was one.
def History.Announced (h : History) : Prop :=
  ∀ session, current? h = some session → verdict? session h ≠ none → session ∈ ended h

theorem History.Announced.note {h : History} {f : Fact} (hh : h.Announced) (hf : f.isTurn = false)
    (hr : ∀ session, f.result? session = none) : Announced (h ++ [f]) := by
  intro session hcur hv
  rw [current?_append hf] at hcur
  rw [verdict?_append, hr, Option.bind_none, Option.or_none] at hv
  rw [ended_append]
  exact List.mem_append_left _ (hh session hcur hv)

theorem Sound.announced_started {p : Poller} {carried : List (Nat × Flight)} {h : History}
    (hs : Sound p carried h) (task : Int) : Announced (h ++ [.started task]) := by
  intro session hcur hv
  obtain rfl : (tasks h).length = session := by simpa using hcur
  simp [Fact.result?, hs.unborn _ (Nat.le_refl _)] at hv

theorem Sound.announced_landed {p : Poller} {carried : List (Nat × Flight)} {h : History}
    (hs : Sound p carried h) (hh : h.Announced) {session : Nat} {f : Flight}
    (hf : Carries h session f) (hc : (p.commit f.generation f.task f.result).2 = none) :
    Announced (h ++ [.landed session f.result]) := by
  intro k hcur hv
  rw [current?_append rfl] at hcur
  rw [ended_append]
  refine List.mem_append_left _ (hh k hcur fun hnone => ?_)
  rw [verdict?_append, hnone, Option.none_or] at hv
  by_cases hk : session = k
  · subst hk
    have hcurrent := (hs.isCurrent_iff hf).mpr ⟨hcur, hnone⟩
    have hsucceeded : p.session.succeeded = false := by
      rw [(hs.current session hcur).2, hnone]
      rfl
    rw [Poller.commit_of_current _ _ hcurrent hsucceeded] at hc
    cases hr : Verdict.ofResult? f.result with
    | none => simp [Fact.result?, hr] at hv
    | some v => simp [hr] at hc
  · simp [Fact.result?, hk] at hv

namespace Moment

variable {m m' : Moment} {source : Source} {e : Event}

theorem announced_step (hm : m.Consistent) (hh : m.history.Announced) (h : Step source m e m') :
    m'.history.Announced := by
  have hs := hm.sound
  cases h with
  | idle | skip | publish | subscribe | unsubscribe | detach | watch | settle | elapse | tick =>
    exact hh
  | call => exact hh.note rfl fun _ => rfl
  | start task => exact hs.announced_started task
  | reset | close => exact fun session hcur => by simp at hcur
  | @command c rest ha =>
    cases c with
    | start task => exact hs.announced_started task
    | reset => exact fun session hcur => by simp [Fact.ofCommand?] at hcur
    | unsubscribe | observe => simpa [Fact.ofCommand?] using hh
  | @land place session f ha hf =>
    have hcar : Carries m.history session f := hs.carries _ (List.mem_of_getElem? hf)
    have herase := hs.erase place
    unfold land
    generalize { m.poller with flights := m.poller.flights.eraseIdx place } = p at herase ⊢
    rcases hc : p.commit f.generation f.task f.result with ⟨q, _ | o⟩
    · simp only [hc]
      exact herase.announced_landed hh hcar (congrArg Prod.snd hc)
    · intro k hcur hv
      simp only [hc, emit] at hcur ⊢
      rw [current?_append rfl, current?_append rfl, (herase.of_outcome hcar hc).1] at hcur
      simp [ended, Fact.ended?, Option.some.inj hcur]

theorem announced_run (source : Source) (interval : Nat) (events : List Event) :
    ((initial interval).run source events).history.Announced := by
  induction events using List.reverseRecOn with
  | nil => exact nofun
  | append_singleton events e ih =>
    rw [run_concat]
    exact announced_step (consistent_run source (consistent_initial interval) events) ih
      (step_cases source _ e)

end Moment

namespace History

variable {h before after : History} {session : Nat} {v : Verdict}

theorem verdict?_append_history (hv : verdict? session before = some v) (after : History) :
    verdict? session (before ++ after) = some v := by
  induction after using List.reverseRecOn with
  | nil => rwa [List.append_nil]
  | append_singleton after f ih => simp [← List.append_assoc, ih]

theorem exists_first_of_verdict? (hv : verdict? session h = some v) :
    ∃ earlier r later, results session h = earlier ++ r :: later ∧ (∀ x ∈ earlier, GoesOn x) ∧
      Verdict.ofResult? r = some v := by
  obtain ⟨earlier, r, later, hr, hverdict, hnone⟩ := List.findSome?_eq_some_iff.mp hv
  exact ⟨earlier, r, later, hr, fun x hx => ofResult?_eq_none_iff.mp (hnone x hx), hverdict⟩

theorem exists_emitted_of_ended (hs : session ∈ ended h) :
    ∃ o state error, Fact.emitted session o state error ∈ h := by
  obtain ⟨f, hf, hended⟩ := List.mem_filterMap.mp hs
  cases f with
  | emitted k o state error =>
    obtain rfl : k = session := by simpa [Fact.ended?] using hended
    exact ⟨o, state, error, hf⟩
  | started | reset | closed | landed | called => cases hended

theorem Lawful.verdict?_of_emitted (hl : Lawful h) {o : Outcome} {state : State}
    {error : Option String} (he : Fact.emitted session o state error ∈ h) :
    verdict? session h = some o.verdict ∧ (state, error) = o.verdict.leaves := by
  obtain ⟨before, after, rfl⟩ := List.append_of_mem he
  obtain ⟨-, -, hv, hleaves, -⟩ := hl before _ after rfl
  exact ⟨verdict?_append_history hv _, hleaves⟩

theorem Lawful.verdict?_of_called (hl : Lawful h) {number : Nat} {interest : Interest}
    {o : Outcome} (hc : Fact.called session number interest o ∈ h) :
    verdict? session h = some o.verdict := by
  obtain ⟨before, after, rfl⟩ := List.append_of_mem hc
  obtain ⟨-, ⟨state, error, he⟩, -⟩ := hl before _ after rfl
  exact (hl.verdict?_of_emitted (List.mem_append_left _ he)).1

end History

section Client

variable {c : Client} {task : Int} {reply : Reply} {r : Except Failure Status} {f : Failure}

-- Where a fetch ends a session with a failure, its message can be seen. It is that of the task
-- exactly where a status tells of an exception.
theorem reason_of_fetch (hr : r = (c.fetch task reply).1)
    (hv : Verdict.ofResult? r = some (.failed f)) :
    Text.allBlank f.message = false ∧
    ∀ x, f = .task x ↔ ∃ s, r = .ok s ∧ reply.Tells s ∧ s.runtime.done = true ∧
      s.runtime.exception = some x ∧ Text.allBlank x = false := by
  rcases r with g | s
  · obtain rfl : g = f := by simpa [Verdict.ofResult?] using hv
    obtain ⟨m, rfl, hm⟩ := Client.isTransport_of_fetch hr.symm
    exact ⟨hm, fun x => by simp⟩
  · have hends := endsIn_followed hv 0 none 0
    have htells : reply.Tells s := Client.tells_of_fetch hr.symm
    cases hx : s.runtime.exceptionMessage with
    | none => cases hd : s.runtime.done <;> simp [Verdict.ofResult?, hd, hx] at hv
    | some m =>
      cases hd : s.runtime.done with
      | false => simp [Verdict.ofResult?, hd] at hv
      | true =>
        obtain rfl : Failure.task m = f := by simpa [Verdict.ofResult?, hd, hx] using hv
        obtain ⟨hs, hb⟩ := Option.filter_eq_some_iff.mp hx
        have hb : Text.allBlank m = false := by simpa using hb
        refine ⟨hb, fun x => ⟨?_, ?_⟩⟩
        · rintro ⟨⟩
          exact ⟨s, rfl, htells, hd, hs, hb⟩
        · rintro ⟨s', hs', -, -, hx', -⟩
          obtain rfl := Except.ok.inj hs'
          rw [Option.some.inj (hs.symm.trans hx')]

end Client

-- Whatever failure a client gives has a message that can be seen. A session that has ended with
-- an error shows the one that its listeners were called with.
theorem failures_have_reasons (c : Client) (source : Source)
    (hsource : ∀ n, ∃ task reply, (source n).2 = (c.fetch task reply).1)
    (interval : Nat) (events : List Event) :
    let m := (Moment.initial interval).run source events
    (∀ task code body isComplete s, (c.fetch task (.response code body isComplete)).1 = .ok s →
      Http.isSuccess code = true) ∧
    (∀ task reply f, (c.fetch task reply).1 = .error f →
      ∃ x, f = .transport x ∧ Text.allBlank x = false) ∧
    (m.poller.isOpen = true → m.poller.session.state = .error →
      ∃ session o f, current? m.history = some session ∧ o.verdict = .failed f ∧
        Fact.emitted session o .error (some f.message) ∈ m.history ∧
        m.poller.session.error = some f.message) ∧
    ∀ session o state error f, Fact.emitted session o state error ∈ m.history →
      o.verdict = .failed f →
      state = .error ∧ error = some f.message ∧ Text.allBlank f.message = false ∧
      (∀ number interest o', Fact.called session number interest o' ∈ m.history →
        o'.verdict = .failed f) ∧
      ∃ earlier r later task reply, results session m.history = earlier ++ r :: later ∧
        (∀ x ∈ earlier, GoesOn x) ∧ ¬ GoesOn r ∧ r = (c.fetch task reply).1 ∧
        ∀ x, f = .task x ↔ ∃ s, r = .ok s ∧ reply.Tells s ∧ s.runtime.done = true ∧
          s.runtime.exception = some x ∧ Text.allBlank x = false := by
  intro m
  have hm : m.Consistent := Moment.consistent_run source (Moment.consistent_initial interval) events
  have hlawful : m.history.Lawful := (Moment.Orderly.run source (.initial interval)
    (Moment.consistent_initial interval) events).lawful
  refine ⟨fun task code body isComplete s hs => ?_, fun task reply f hf => ?_, fun ho he => ?_, ?_⟩
  · cases Client.tells_of_fetch hs with
    | response hc => exact hc
  · exact Client.isTransport_of_fetch hf
  · cases hc : current? m.history with
    | none =>
      rw [hm.sound.idle hc ho] at he
      cases he
    | some session =>
      have hsession := (hm.sound.current session hc).2
      cases hv : verdict? session m.history with
      | none =>
        rw [hsession, hv] at he
        cases he
      | some v =>
        obtain ⟨o, state, error, hemitted⟩ := exists_emitted_of_ended
          (Moment.announced_run source interval events session hc (by simp [m, hv]))
        obtain ⟨hv', hleaves⟩ := hlawful.verdict?_of_emitted hemitted
        obtain rfl : v = o.verdict := Option.some.inj (hv.symm.trans hv')
        rw [hsession, hv] at he ⊢
        cases ho : o.verdict with
        | succeeded =>
          rw [ho] at he
          cases he
        | failed f =>
          obtain ⟨rfl, rfl⟩ := Prod.mk.inj (ho ▸ hleaves)
          exact ⟨session, o, f, rfl, ho, hemitted, rfl⟩
  · intro session o state error f he hf
    obtain ⟨hv, hleaves⟩ := hlawful.verdict?_of_emitted he
    rw [hf] at hv hleaves
    obtain ⟨rfl, rfl⟩ := Prod.mk.inj hleaves
    obtain ⟨earlier, r, later, hr, hgo, hverdict⟩ := exists_first_of_verdict? hv
    have hgiven : ∀ r ∈ results session m.history, ∃ task reply, r = (c.fetch task reply).1 :=
      Moment.given_results hsource interval events session
    obtain ⟨task, reply, hreply⟩ := hgiven r (hr ▸ List.mem_append_right _ List.mem_cons_self)
    obtain ⟨hblank, htask⟩ := reason_of_fetch hreply hverdict
    refine ⟨rfl, rfl, hblank, fun number interest o' hcalled => ?_,
      earlier, r, later, task, reply, hr, hgo, fun hg => ?_, hreply, htask⟩
    · exact Option.some.inj ((hlawful.verdict?_of_called hcalled).symm.trans hv)
    · rw [ofResult?_eq_none_iff.mpr hg] at hverdict
      cases hverdict

def localhost : Client := .new "http://localhost" Client.defaultTemplate none

def brokenTask : Reply :=
  .response 200 "\x7b\"runtime\":\x7b\"done\":true,\"exception\":\"disk full\"\x7d\x7d" true

theorem fetch_brokenTask :
    (localhost.fetch 7 brokenTask).1 = .ok ⟨none, none, .failed "disk full"⟩ := by
  have htells : brokenTask.Tells ⟨none, none, .failed "disk full"⟩ :=
    .response rfl rfl (by decide +kernel)
  have hrequest : localhost.request 7 = .ok
      ⟨⟨"http", none, some "localhost", "/api/v1/system/tasks/7", none, none⟩,
        "application/json", none, none⟩ := by decide
  rw [Client.result_of_request hrequest, Client.read_eq_ok_iff]
  exact htells

-- The listener is called while the session shows the exception.
theorem failures_have_reasons_of_exception :
    let m := (Moment.initial 1000).run (fun _ => (0, .ok ⟨none, none, .failed "disk full"⟩))
      [.subscribe ⟨"alarm", .failure, fun _ _ => []⟩, .start 7, .tick 0, .land 0, .work]
    m.poller.session.state = .error ∧ m.poller.session.error = some "disk full" ∧
    Fact.called 0 0 .failure ⟨7, .failed (.task "disk full")⟩ ∈ m.history ∧
    Text.allBlank "disk full" = false := by
  intro m
  obtain ⟨-, -, hshown, htold⟩ := failures_have_reasons localhost
    (fun _ => (0, .ok ⟨none, none, .failed "disk full"⟩))
    (fun _ => ⟨7, brokenTask, fetch_brokenTask.symm⟩) 1000
    [.subscribe ⟨"alarm", .failure, fun _ _ => []⟩, .start 7, .tick 0, .land 0, .work]
  have hcalled : Fact.called 0 0 .failure ⟨7, .failed (.task "disk full")⟩ ∈ m.history :=
    List.mem_append_right _ (List.mem_singleton.mpr rfl)
  have hstate : m.poller.session.state = .error := rfl
  obtain ⟨session, o, f, hcur, hf, hemitted, herror⟩ := hshown rfl hstate
  obtain rfl : 0 = session := Option.some.inj hcur
  obtain ⟨-, -, hblank, hlisteners, -⟩ := htold 0 o _ _ f hemitted hf
  obtain rfl := Verdict.failed.inj (hlisteners 0 .failure _ hcalled)
  exact ⟨hstate, herror, hcalled, hblank⟩

end BotConsole.Poll
