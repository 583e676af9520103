import BotConsole.Proofs.Poll.Outcomes
import BotConsole.Proofs.Poll.Reachable

namespace BotConsole.Poll

open BotConsole.Task (Failure Status)
open History

namespace Poller

variable {p q : Poller}

def announcement (p : Poller) (o : Outcome) : List Telling :=
  .emitted o :: (p.subscriptions.registry.entries.filter (·.2.interest.covers o.verdict)).map
    fun (number, l) => .called number l.interest o

theorem Silent.tellings (h : Silent Entry.telling? p q) : q.tellings = p.tellings :=
  congrArg (List.map Prod.snd) h.logged

theorem tellings_foldl_perform (commands : List Command) (p : Poller) :
    (commands.foldl perform p).tellings = p.tellings :=
  (Silent.foldl (silent_perform Entry.ignores_telling?) commands p).tellings

theorem tellings_call (p : Poller) (o : Outcome) (number : Nat) (l : Listener) :
    (p.call o number l).tellings = p.tellings ++
      if l.interest.covers o.verdict then [.called number l.interest o] else [] := by
  unfold call
  split
  · rw [tellings_foldl_perform, tellings_record]
    rfl
  · exact (List.append_nil _).symm

theorem tellings_foldl_call (o : Outcome) (entries : List (Nat × Listener)) (p : Poller) :
    (entries.foldl (fun p (number, l) => p.call o number l) p).tellings = p.tellings ++
      (entries.filter (·.2.interest.covers o.verdict)).map
        fun (number, l) => .called number l.interest o := by
  induction entries generalizing p with
  | nil => exact (List.append_nil _).symm
  | cons entry entries ih =>
    obtain ⟨number, l⟩ := entry
    rw [List.foldl_cons, ih, tellings_call, List.append_assoc]
    by_cases hcovers : l.interest.covers o.verdict = true <;> simp [hcovers]

-- Every listener there is when the emission begins is called that the outcome concerns, whatever
-- the others do in between.
theorem tellings_emit (p : Poller) (o : Outcome) :
    (p.emit o).tellings = p.tellings ++ p.announcement o := by
  unfold emit
  rw [tellings_foldl_call, tellings_record, List.append_assoc]
  rfl

end Poller

namespace Moment

variable {source : Source} {m m' m₀ m₁ m₂ : Moment} {place session : Nat} {f : Flight} {q : Poller}
  {o : Outcome}

-- A fetch can come back that ends its session.
structure Concludes (m : Moment) (place session : Nat) (f : Flight) (q : Poller) (o : Outcome) :
    Prop where
  idle : m.agenda = []
  carried : m.carried[place]? = some (session, f)
  commit : Poller.commit { m.poller with flights := m.poller.flights.eraseIdx place }
    f.generation f.task f.result = (q, some o)

theorem Concludes.land (hc : m.Concludes place session f q o) :
    ∃ history, m.land place session f = ⟨q.record (.emitted o),
      Pending.calls session o q.subscriptions.registry.entries ++ [.publish f.generation],
      m.carried.eraseIdx place, history⟩ := by
  unfold Moment.land
  simp only [hc.commit]
  exact ⟨_, rfl⟩

theorem Concludes.leadsTo (source : Source) (hc : m.Concludes place session f q o) :
    ∃ history, LeadsTo source (m.land place session f)
      ⟨q.emit o, [.publish f.generation], m.carried.eraseIdx place, history⟩ := by
  obtain ⟨history, hland⟩ := hc.land
  rw [hland]
  exact leadsTo_calls source session o q.subscriptions.registry.entries [.publish f.generation]
    _ rfl

theorem step_of_busy (ha : m.agenda ≠ []) {e : Event} (he : e ≠ .work) : m.step source e = m := by
  unfold step
  split
  · exact absurd ‹_› ha
  · exact absurd rfl he
  · rfl

-- Nothing but a fetch that ends its session puts anything on the agenda.
theorem concludes_of_step {e : Event} (ha : m.agenda = []) (hne : (m.step source e).agenda ≠ []) :
    ∃ place session f q o, m.Concludes place session f q o ∧
      m.step source e = m.land place session f := by
  have hstep := step_cases source m e
  generalize m.step source e = m' at hne hstep ⊢
  cases hstep with
  | @land place session f _ hf =>
    rcases hc : Poller.commit { m.poller with flights := m.poller.flights.eraseIdx place }
      f.generation f.task f.result with ⟨q, _ | o⟩
    · refine absurd ?_ hne
      simpa only [land, hc] using ha
    · exact ⟨place, session, f, q, o, ⟨ha, hf, hc⟩, rfl⟩
  | skip ha' | call ha' | command ha' | publish ha' => simp [ha] at ha'
  | _ => exact absurd ha hne

theorem exists_concludes (source : Source) (interval : Nat) (events : List Event)
    (ha : ((initial interval).run source events).agenda ≠ []) :
    ∃ m₀ place session f q o, Reached source interval m₀ ∧
      m₀.Concludes place session f q o ∧
      LeadsTo source (m₀.land place session f) ((initial interval).run source events) := by
  induction events using List.reverseRecOn with
  | nil => exact absurd rfl ha
  | append_singleton events e ih =>
    rw [run_concat] at ha ⊢
    by_cases hidle : ((initial interval).run source events).agenda = []
    · obtain ⟨place, session, f, q, o, hc, hland⟩ := concludes_of_step hidle ha
      exact ⟨_, place, session, f, q, o, ⟨events, rfl⟩, hc, hland ▸ .refl source _⟩
    · obtain ⟨m₀, place, session, f, q, o, hm₀, hc, hlead⟩ := ih hidle
      refine ⟨m₀, place, session, f, q, o, hm₀, hc, ?_⟩
      by_cases he : e = .work
      · exact hlead.trans ⟨1, by rw [he]; rfl⟩
      · rw [step_of_busy hidle he]
        exact hlead

theorem run_work_of_idle (ha : m.agenda = []) (n : Nat) :
    m.run source (List.replicate n .work) = m := by
  induction n with
  | zero => rfl
  | succ n ih =>
    have hstep : m.step source .work = m := by simp [step, ha, accept]
    rw [List.replicate_succ, run, List.foldl_cons, hstep]
    exact ih

theorem LeadsTo.total (h₁ : LeadsTo source m m₁) (h₂ : LeadsTo source m m₂) :
    LeadsTo source m₁ m₂ ∨ LeadsTo source m₂ m₁ := by
  obtain ⟨n₁, rfl⟩ := h₁
  obtain ⟨n₂, rfl⟩ := h₂
  rcases Nat.le_total n₁ n₂ with hle | hle
  · obtain ⟨k, rfl⟩ := Nat.exists_eq_add_of_le hle
    exact .inl ⟨k, by rw [← run_append, List.replicate_append_replicate]⟩
  · obtain ⟨k, rfl⟩ := Nat.exists_eq_add_of_le hle
    exact .inr ⟨k, by rw [← run_append, List.replicate_append_replicate]⟩

theorem LeadsTo.eq_of_idle (h₁ : LeadsTo source m m₁) (h₂ : LeadsTo source m m₂)
    (ha₁ : m₁.agenda = []) (ha₂ : m₂.agenda = []) : m₁ = m₂ := by
  rcases h₁.total h₂ with ⟨k, rfl⟩ | ⟨k, rfl⟩
  · exact (run_work_of_idle ha₁ k).symm
  · exact run_work_of_idle ha₂ k

theorem LeadsTo.eq_or_idle {generation : Nat} (h : LeadsTo source m m')
    (ha : m.agenda = [.publish generation]) : m' = m ∨ m'.agenda = [] := by
  obtain ⟨k, rfl⟩ := h
  cases k with
  | zero => exact .inl rfl
  | succ k =>
    have hdone : (m.step source .work).agenda = [] := by
      simp only [step, ha, Moment.work]
      split <;> rfl
    have hrest : (m.step source .work).run source (List.replicate k .work) = m.step source .work :=
      run_work_of_idle hdone k
    exact .inr ((congrArg Moment.agenda hrest).trans hdone)

-- An emission comes only once to where nothing but the publishing is left.
theorem LeadsTo.eq_of_publish (h₁ : LeadsTo source m m₁) (h₂ : LeadsTo source m m₂) {g₁ g₂ : Nat}
    (ha₁ : m₁.agenda = [.publish g₁]) (ha₂ : m₂.agenda = [.publish g₂]) : m₁ = m₂ := by
  rcases h₁.total h₂ with h | h
  · rcases h.eq_or_idle ha₁ with heq | hidle
    · exact heq.symm
    · simp [ha₂] at hidle
  · rcases h.eq_or_idle ha₂ with heq | hidle
    · exact heq
    · simp [ha₁] at hidle

theorem Concludes.poller_eq (hc : m₀.Concludes place session f q o)
    (hlead : LeadsTo source (m₀.land place session f) m) {generation : Nat}
    (ha : m.agenda = [.publish generation]) : m.poller = q.emit o ∧ generation = f.generation := by
  obtain ⟨history, htold⟩ := hc.leadsTo source
  have heq := hlead.eq_of_publish htold ha rfl
  rw [heq] at ha ⊢
  exact ⟨rfl, (Pending.publish.inj (List.cons.inj ha).1).symm⟩

end Moment

end BotConsole.Poll
