import BotConsole.Proofs.Poll.Reachable

namespace BotConsole.Poll

open BotConsole.Task (Failure Status)
open History

def GoesOn (r : Except Failure Status) : Prop :=
  ∃ s, r = .ok s ∧ s.runtime.done = false

-- The state and the error that a session ends with by such a result.
inductive EndsIn : Except Failure Status → State → Option String → Prop where
  | failed (f : Failure) : EndsIn (.error f) .error (some f.message)
  | exception (s : Status) (x : String) (hd : s.runtime.done = true)
    (hx : s.runtime.exception = some x) (hb : Text.allBlank x = false) :
    EndsIn (.ok s) .error (some x)
  | succeeded (s : Status) (hd : s.runtime.done = true)
    (hx : ∀ x, s.runtime.exception = some x → Text.allBlank x = true) :
    EndsIn (.ok s) .success none

variable {r : Except Failure Status} {v : Verdict}

theorem ofResult?_eq_none_iff : Verdict.ofResult? r = none ↔ GoesOn r := by
  unfold Verdict.ofResult? GoesOn
  rcases r with f | s
  · simp
  · cases hd : s.runtime.done
    · simp [hd]
    · rcases hx : s.runtime.exceptionMessage with _ | x <;> simp [hd, hx]

theorem endsIn_followed (hv : Verdict.ofResult? r = some v) (generation : Nat) (task : Option Int)
    (number : Nat) :
    EndsIn r (Session.followed generation task number (some v)).state
      (Session.followed generation task number (some v)).error := by
  unfold Verdict.ofResult? at hv
  rcases r with f | s
  · obtain rfl := Option.some.inj hv
    exact .failed f
  · cases hd : s.runtime.done with
    | false => simp [hd] at hv
    | true =>
      cases hx : s.runtime.exceptionMessage with
      | none =>
        obtain rfl : Verdict.succeeded = v := by simpa [hd, hx] using hv
        refine .succeeded s hd fun x hs => ?_
        simpa [Task.Runtime.exceptionMessage, hs] using hx
      | some x =>
        obtain rfl : Verdict.failed (.task x) = v := by simpa [hd, hx] using hv
        obtain ⟨hs, hb⟩ := Option.filter_eq_some_iff.mp hx
        exact .exception s x hd hs (by simpa using hb)

namespace History

variable {session : Nat} {h : History}

theorem verdict?_eq_none_iff : verdict? session h = none ↔ ∀ r ∈ results session h, GoesOn r := by
  simp only [verdict?, List.findSome?_eq_none_iff, ofResult?_eq_none_iff]

theorem verdict?_eq_of_first {earlier later : List (Except Failure Status)}
    (hr : results session h = earlier ++ r :: later) (he : ∀ x ∈ earlier, GoesOn x)
    (hn : ¬ GoesOn r) : verdict? session h = Verdict.ofResult? r := by
  have hnone : earlier.findSome? Verdict.ofResult? = none := by
    rw [List.findSome?_eq_none_iff]
    exact fun x hx => ofResult?_eq_none_iff.mpr (he x hx)
  obtain ⟨v, hv⟩ := Option.ne_none_iff_exists'.mp fun hv => hn (ofResult?_eq_none_iff.mp hv)
  simp [verdict?, hr, List.findSome?_append, hnone, hv]

end History

namespace Sound

variable {p : Poller} {carried : List (Nat × Flight)} {h : History} {session : Nat}

theorem running_iff (hs : Sound p carried h) (hc : current? h = some session) :
    p.session.state = .running ↔ verdict? session h = none := by
  rw [(hs.current session hc).2]
  cases verdict? session h with
  | none => simp [Session.followed]
  | some v => cases v <;> simp [Session.followed, Session.conclude]

theorem commit_of_over (hs : Sound p carried h) {f : Flight} (hf : Carries h session f)
    (ho : current? h ≠ some session ∨ verdict? session h ≠ none) :
    p.commit f.generation f.task f.result = (p, none) := by
  refine Poller.commit_of_stale f.task f.result ?_
  rw [← Bool.not_eq_true, hs.isCurrent_iff hf]
  tauto

end Sound

-- A session runs as long as all its fetches let it go on, and ends as the first of them says that
-- does not. Fetches that come back later change nothing.
theorem follows_first_verdict (source : Source) (interval : Nat) (events : List Event) :
    let m := (Moment.initial interval).run source events
    (∀ session, current? m.history = some session →
      (m.poller.session.state = .running ↔ ∀ r ∈ results session m.history, GoesOn r) ∧
      ∀ earlier r later, results session m.history = earlier ++ r :: later →
        (∀ x ∈ earlier, GoesOn x) → ¬ GoesOn r →
        EndsIn r m.poller.session.state m.poller.session.error) ∧
    m.poller.flights = m.carried.map Prod.snd ∧
    ∀ place session f, m.agenda = [] → m.carried[place]? = some (session, f) →
      (current? m.history ≠ some session ∨ ∃ r ∈ results session m.history, ¬ GoesOn r) →
      (m.step source (.land place)).poller = m.poller.land place f ∧
      m.poller.land place f = { m.poller with flights := m.poller.flights.eraseIdx place } := by
  intro m
  have hm : m.Consistent := Moment.consistent_run source (Moment.consistent_initial interval) events
  refine ⟨fun session hc => ⟨?_, ?_⟩, hm.sound.flights, ?_⟩
  · rw [hm.sound.running_iff hc, verdict?_eq_none_iff]
  · intro earlier r later hr he hn
    obtain ⟨v, hv⟩ := Option.ne_none_iff_exists'.mp fun hv => hn (ofResult?_eq_none_iff.mp hv)
    rw [(hm.sound.current session hc).2, verdict?_eq_of_first hr he hn, hv]
    exact endsIn_followed hv _ _ _
  · intro place session f ha hf hover
    have hcar : Carries m.history session f := hm.sound.carries _ (List.mem_of_getElem? hf)
    have hcommit := (hm.sound.erase place).commit_of_over hcar
      (hover.imp_right fun ⟨r, hr, hn⟩ hv => hn (verdict?_eq_none_iff.mp hv r hr))
    have hland : m.poller.land place f =
        { m.poller with flights := m.poller.flights.eraseIdx place } := by
      simp only [Poller.land, Poller.apply, hcommit]
    refine ⟨?_, hland⟩
    rw [Moment.step_of_idle ha, hland]
    simp only [Moment.accept, hf, Moment.land, hcommit]

-- The first fetch of a session brings a success after a long while, all others fail at once.
def overtaken : Source := fun n =>
  if n = 0 then (5000, .ok ⟨none, none, .succeeded⟩) else (0, .error (.transport "gone"))

-- Of two fetches on their way the second comes back first and ends the session. Of the success
-- that the other one brings nobody hears.
theorem follows_first_verdict_overtaken :
    let m := (Moment.initial 1000).run overtaken [.start 7, .tick 0, .tick 0, .land 1, .work]
    EndsIn (.error (.transport "gone")) m.poller.session.state m.poller.session.error ∧
      (m.step overtaken (.land 0)).poller =
        { m.poller with flights := m.poller.flights.eraseIdx 0 } := by
  have hgone : ¬ GoesOn (.error (.transport "gone")) := by
    rintro ⟨s, hs, -⟩
    cases hs
  obtain ⟨hfirst, -, hlate⟩ :=
    follows_first_verdict overtaken 1000 [.start 7, .tick 0, .tick 0, .land 1, .work]
  have hover := hlate 0 0 ⟨1, 7, 5000, .ok ⟨none, none, .succeeded⟩⟩ rfl rfl
    (.inr ⟨.error (.transport "gone"), List.mem_singleton.mpr rfl, hgone⟩)
  exact ⟨(hfirst 0 rfl).2 [] _ [] rfl (by simp) hgone, hover.1.trans hover.2⟩

end BotConsole.Poll
