import BotConsole.Proofs.Event.Emission

namespace BotConsole.Event

variable {ε : Type}

def Listener.OnlyCancels (l : Listener ε) : Prop :=
  ∀ calls event, ∀ a ∈ l.react calls event, ∃ tag, a = .unsubscribe tag

def Pending.OnlyCancels : Pending ε → Prop
  | .call _ _ l _ => l.OnlyCancels
  | .action (.subscribe tag react) => Listener.OnlyCancels ⟨tag, react⟩
  | .action _ => True

theorem Subscriptions.mem_cancel {L : Type} {s : Subscriptions L} {tag : String} {entry : Nat × L}
    (h : entry ∈ (s.cancel tag).registry.entries) : entry ∈ s.registry.entries := by
  unfold cancel at h
  split at h
  · exact h
  · exact (List.mem_filter.mp h).1

theorem Subscriptions.mem_subscribe {L : Type} {s : Subscriptions L} {tag : String} {listener : L}
    {entry : Nat × L} (h : entry ∈ (s.subscribe tag listener).registry.entries) :
    entry ∈ s.registry.entries ∨ entry.2 = listener := by
  have hadded : ∀ e ∈ (s.registry.subscribe listener).1.entries,
      e ∈ s.registry.entries ∨ e.2 = listener := by
    intro e he
    rcases List.mem_append.mp he with he | he
    · exact .inl he
    · exact .inr (congrArg Prod.snd (List.mem_singleton.mp he))
  unfold subscribe at h
  cases hold : s.held.find? tag with
  | none =>
    rw [hold] at h
    exact hadded entry h
  | some number =>
    rw [hold] at h
    exact hadded entry (List.mem_filter.mp h).1

namespace Course

variable {c : Course ε}

-- An open bus on which nobody but its owner emits.
structure OwnersOnly (c : Course ε) : Prop where
  isOpen : c.bus.isOpen = true
  listeners : ∀ entry ∈ c.bus.registry.entries, entry.2.OnlyCancels
  agenda : ∀ p ∈ c.agenda, p.OnlyCancels

namespace OwnersOnly

theorem act (hc : c.OwnersOnly) {a : Action ε} (ha : (Pending.action a).OnlyCancels) :
    OwnersOnly ⟨c.bus, [.action a]⟩ :=
  ⟨hc.isOpen, hc.listeners, fun _ hp => List.mem_singleton.mp hp ▸ ha⟩

theorem next (hc : c.OwnersOnly) : c.next.OwnersOnly := by
  cases hagenda : c.agenda with
  | nil => rwa [next_of_idle hagenda]
  | cons p rest =>
    rw [next_eq hagenda]
    have hrest : ∀ q ∈ rest, q.OnlyCancels := fun q hq => hc.agenda q (by simp [hagenda, hq])
    have hp : p.OnlyCancels := hc.agenda p (by simp [hagenda])
    cases p with
    | call emission number l event =>
      refine ⟨hc.isOpen, hc.listeners, fun q hq => ?_⟩
      rcases List.mem_append.mp hq with hq | hq
      · obtain ⟨a, ha, rfl⟩ := List.mem_map.mp hq
        obtain ⟨tag, rfl⟩ := hp _ _ a ha
        trivial
      · exact hrest q hq
    | action a =>
      cases a with
      | emit event =>
        simp only [Bus.step, if_pos hc.isOpen]
        refine ⟨hc.isOpen, hc.listeners, fun q hq => ?_⟩
        rcases List.mem_append.mp hq with hq | hq
        · obtain ⟨entry, hentry, rfl⟩ := List.mem_map.mp hq
          exact hc.listeners entry hentry
        · exact hrest q hq
      | subscribe tag react =>
        simp only [Bus.step, if_pos hc.isOpen]
        refine ⟨hc.isOpen, fun entry hentry => ?_, hrest⟩
        rcases Subscriptions.mem_subscribe hentry with hold | hnew
        · exact hc.listeners entry hold
        · exact hnew ▸ hp
      | unsubscribe tag =>
        exact ⟨hc.isOpen, fun _ he => hc.listeners _ (Subscriptions.mem_cancel he), hrest⟩
      | detach tag => exact ⟨hc.isOpen, hc.listeners, hrest⟩
      | count => exact ⟨hc.isOpen, hc.listeners, hrest⟩

end OwnersOnly

theorem cancels_done (cancels rest : List (Pending ε)) (b : Bus ε)
    (hcancels : ∀ p ∈ cancels, ∃ tag, p = .action (.unsubscribe tag)) :
    ∃ n b', next^[n] ⟨b, cancels ++ rest⟩ = ⟨b', rest⟩ ∧ b'.emissions = b.emissions := by
  induction cancels generalizing b with
  | nil => exact ⟨0, b, rfl, rfl⟩
  | cons p cancels ih =>
    obtain ⟨tag, rfl⟩ := hcancels p List.mem_cons_self
    obtain ⟨n, b', hrun, he⟩ := ih { b with subscriptions := b.subscriptions.cancel tag }
      fun q hq => hcancels q (List.mem_cons_of_mem _ hq)
    exact ⟨n + 1, b', hrun, he⟩

theorem calls_done (entries : List (Nat × Listener ε)) (rest : List (Pending ε)) (emission : Nat)
    (event : ε) (b : Bus ε) (hl : ∀ entry ∈ entries, entry.2.OnlyCancels) :
    ∃ n b', next^[n] ⟨b, entries.map (fun (number, l) => .call emission number l event) ++ rest⟩ =
      ⟨b', rest⟩ ∧ b'.emissions = b.emissions := by
  induction entries generalizing b with
  | nil => exact ⟨0, b, rfl, rfl⟩
  | cons entry entries ih =>
    obtain ⟨number, l⟩ := entry
    let calls : List (Pending ε) := entries.map fun (number, l) => .call emission number l event
    let called : Bus ε :=
      { b with
        calls := b.calls + 1
        reports := b.reports ++ [.call emission number l.tag event] }
    have hreact : ∀ p ∈ (l.react b.calls event).map Pending.action,
        ∃ tag, p = .action (.unsubscribe tag) := by
      intro p hp
      obtain ⟨a, ha, rfl⟩ := List.mem_map.mp hp
      obtain ⟨tag, rfl⟩ := hl (number, l) List.mem_cons_self _ _ a ha
      exact ⟨tag, rfl⟩
    obtain ⟨n, b₁, hrun, he⟩ := cancels_done _ (calls ++ rest) called hreact
    obtain ⟨k, b₂, hrest, he'⟩ := ih b₁ fun e he => hl e (List.mem_cons_of_mem _ he)
    refine ⟨k + n + 1, b₂, ?_, he'.trans he⟩
    rw [Function.iterate_succ_apply, Function.iterate_add_apply]
    show next^[k] (next^[n]
      ⟨called, (l.react b.calls event).map Pending.action ++ (calls ++ rest)⟩) = ⟨b₂, rest⟩
    rw [hrun]
    exact hrest

-- Where nobody else emits, everybody who was there at the beginning of an emission gets called.
theorem OwnersOnly.delivered (hc : c.OwnersOnly) (hnested : c.Nested) {event : ε}
    (ha : c.agenda = [.action (.emit event)]) :
    ∃ n, (Course.next^[n] c).agenda = [] ∧
      (Course.next^[n] c).bus.emissions = c.bus.emissions + 1 ∧
      (Course.next^[n] c).bus.callsOf c.bus.emissions = c.bus.snapshot event := by
  have hnext := next_emit ha hc.isOpen
  obtain ⟨n, b, hrun, he⟩ := calls_done c.bus.registry.entries [] c.bus.emissions event
    { c.bus with emissions := c.bus.emissions + 1 } hc.listeners
  have hend : Course.next^[n + 1] c = ⟨b, []⟩ := by
    rw [Function.iterate_succ_apply, hnext]
    exact hrun
  have hcalls := hnested.calls_emit ha hc.isOpen (LeadsTo.refl.iterate n)
  rw [← Function.iterate_succ_apply, hend] at hcalls
  refine ⟨n + 1, by rw [hend], by rw [hend]; exact he, ?_⟩
  rw [hend]
  simpa [callsLeft] using hcalls

end Course

end BotConsole.Event
