import BotConsole.Event.Bus
import BotConsole.Proofs.Event.Registry
import Mathlib.Logic.Function.Iterate

namespace BotConsole.Event

variable {ε : Type}

abbrev Call (ε : Type) := Nat × String × ε

def Report.callOf? (emission : Nat) : Report ε → Option (Call ε)
  | .call e number tag event => if e = emission then some (number, tag, event) else none
  | .count _ => none

namespace Pending

def emission? : Pending ε → Option Nat
  | .call e _ _ _ => some e
  | .action _ => none

def callOf? (emission : Nat) : Pending ε → Option (Call ε)
  | .call e number l event => if e = emission then some (number, l.tag, event) else none
  | .action _ => none

theorem callOf?_eq_none {p : Pending ε} {emission : Nat} (hp : p.emission? ≠ some emission) :
    p.callOf? emission = none := by
  cases p with
  | action a => rfl
  | call e number l event => simpa [callOf?, emission?] using hp

end Pending

namespace Bus

variable {b b' : Bus ε}

abbrev registry (b : Bus ε) : Registry (Listener ε) := b.subscriptions.registry

def callsOf (b : Bus ε) (emission : Nat) : List (Call ε) :=
  b.reports.filterMap (Report.callOf? emission)

def snapshot (b : Bus ε) (event : ε) : List (Call ε) :=
  b.registry.entries.map fun (number, l) => (number, l.tag, event)

theorem callOf?_callsFor (b : Bus ε) (event : ε) :
    (b.callsFor event).filterMap (Pending.callOf? b.emissions) = b.snapshot event := by
  simp [callsFor, snapshot, List.filterMap_map, Pending.callOf?, Function.comp_def]

theorem emission?_callsFor (b : Bus ε) (event : ε) :
    (b.callsFor event).filterMap Pending.emission? =
      List.replicate b.registry.entries.length b.emissions := by
  rw [callsFor, List.filterMap_map]
  simp [Pending.emission?, Function.comp_def, List.map_const']

structure Quiet (b b' : Bus ε) : Prop where
  emissions : b'.emissions = b.emissions
  callsOf : ∀ emission, b'.callsOf emission = b.callsOf emission
  registry : b.registry.Later b'.registry

-- What a step does: it begins an emission, calls a listener, or changes only who is registered.
inductive Step (b : Bus ε) : Pending ε → Bus ε × List (Pending ε) → Prop where
  | emit (event : ε) (ho : b.isOpen = true) :
    Step b (.action (.emit event)) ({ b with emissions := b.emissions + 1 }, b.callsFor event)
  | call (emission number : Nat) (l : Listener ε) (event : ε) :
    Step b (.call emission number l event)
      ({ b with
          calls := b.calls + 1
          reports := b.reports ++ [.call emission number l.tag event] },
        (l.react b.calls event).map .action)
  | quiet {b' : Bus ε} (a : Action ε) (hq : b.Quiet b') : Step b (.action a) (b', [])

theorem step_cases (b : Bus ε) (p : Pending ε) : b.Step p (b.step p) := by
  have hsame : b.Quiet b := ⟨rfl, fun _ => rfl, .refl _⟩
  cases p with
  | call emission number l event => exact .call emission number l event
  | action a =>
    cases a with
    | emit event =>
      simp only [step]
      split
      · exact .emit event ‹_›
      · exact .quiet _ hsame
    | subscribe tag react =>
      simp only [step]
      split
      · exact .quiet _ ⟨rfl, fun _ => rfl, b.subscriptions.later_subscribe tag _⟩
      · exact .quiet _ hsame
    | unsubscribe tag => exact .quiet _ ⟨rfl, fun _ => rfl, b.subscriptions.later_cancel tag⟩
    | detach tag => exact .quiet _ ⟨rfl, fun _ => rfl, .refl _⟩
    | count =>
      refine .quiet _ ⟨rfl, fun emission => ?_, .refl _⟩
      simp [callsOf, List.filterMap_append, Report.callOf?]

theorem later_step (b : Bus ε) (p : Pending ε) : b.registry.Later (b.step p).1.registry := by
  have hstep := step_cases b p
  generalize b.step p = done at hstep
  cases hstep with
  | emit | call => exact .refl _
  | quiet _ hq => exact hq.registry

theorem emissions_le_step (b : Bus ε) (p : Pending ε) : b.emissions ≤ (b.step p).1.emissions := by
  have hstep := step_cases b p
  generalize b.step p = done at hstep
  cases hstep with
  | emit => exact Nat.le_succ _
  | call => exact Nat.le_refl _
  | quiet _ hq => exact Nat.le_of_eq hq.emissions.symm

end Bus

structure Course (ε : Type) where
  bus : Bus ε
  agenda : List (Pending ε)

namespace Course

variable {c d : Course ε} {emission : Nat} {p : Pending ε} {rest : List (Pending ε)}

def next (c : Course ε) : Course ε :=
  match c.agenda with
  | [] => c
  | p :: rest => ⟨(c.bus.step p).1, (c.bus.step p).2 ++ rest⟩

theorem next_eq (ha : c.agenda = p :: rest) :
    c.next = ⟨(c.bus.step p).1, (c.bus.step p).2 ++ rest⟩ := by
  simp only [next, ha]

theorem next_of_idle (ha : c.agenda = []) : c.next = c := by
  simp only [next, ha]

-- What may come of a course: things are done one after the other, and whenever nothing is left
-- the owner acts, or gives the bus up.
inductive LeadsTo (c : Course ε) : Course ε → Prop where
  | refl : LeadsTo c c
  | next {d : Course ε} (h : LeadsTo c d) : LeadsTo c d.next
  | act {d : Course ε} (h : LeadsTo c d) (ha : d.agenda = []) (a : Action ε) :
    LeadsTo c ⟨d.bus, [.action a]⟩
  | close {d : Course ε} (h : LeadsTo c d) (ha : d.agenda = []) : LeadsTo c ⟨d.bus.close, []⟩

theorem LeadsTo.trans {d' : Course ε} (h : LeadsTo c d) (h' : LeadsTo d d') : LeadsTo c d' := by
  induction h' with
  | refl => exact h
  | next _ ih => exact ih.next
  | act _ ha a ih => exact ih.act ha a
  | close _ ha ih => exact ih.close ha

theorem LeadsTo.iterate (h : LeadsTo c d) (n : Nat) : LeadsTo c (Course.next^[n] d) := by
  induction n generalizing d with
  | zero => exact h
  | succ n ih => exact ih h.next

def Reached (c : Course ε) : Prop := LeadsTo ⟨.empty, []⟩ c

def callsLeft (c : Course ε) (emission : Nat) : List (Call ε) :=
  c.agenda.filterMap (Pending.callOf? emission)

-- The emissions that have calls left, for each call, the next one first.
def pendings (c : Course ε) : List Nat :=
  c.agenda.filterMap Pending.emission?

-- Emissions are numbered as they begin. What is left of them is done from the latest to the
-- earliest.
structure Nested (c : Course ε) : Prop where
  numbered : c.bus.registry.Numbered
  begun : ∀ emission ∈ c.pendings, emission < c.bus.emissions
  called : ∀ emission, c.bus.emissions ≤ emission → c.bus.callsOf emission = []
  descending : c.pendings.Pairwise (· ≥ ·)

theorem callsLeft_eq_nil (he : emission ∉ c.pendings) : c.callsLeft emission = [] := by
  refine List.filterMap_eq_nil_iff.mpr fun p hp => Pending.callOf?_eq_none fun h => ?_
  exact he (List.mem_filterMap.mpr ⟨p, hp, h⟩)

namespace Nested

theorem next (hc : c.Nested) : c.next.Nested := by
  cases ha : c.agenda with
  | nil => rwa [next_of_idle ha]
  | cons p rest =>
    rw [next_eq ha]
    have hpendings : c.pendings = p.emission?.toList ++ rest.filterMap Pending.emission? := by
      rw [pendings, ha]
      cases h : p.emission? <;> simp [h]
    have hbegun := hc.begun
    have hdescending := hc.descending
    rw [hpendings] at hbegun hdescending
    have hrest := (List.pairwise_append.mp hdescending).2.1
    have hlt : ∀ e ∈ rest.filterMap Pending.emission?, e < c.bus.emissions :=
      fun e he => hbegun e (List.mem_append_right _ he)
    have hstep := c.bus.step_cases p
    have hnumbered := (c.bus.later_step p).numbered hc.numbered
    generalize c.bus.step p = done at hstep hnumbered ⊢
    cases hstep with
    | emit event ho =>
      -- the new emission comes first, and its number is the highest
      refine ⟨hnumbered, fun e he => ?_, fun e he => hc.called e (Nat.le_of_succ_le he), ?_⟩
      · rw [pendings, List.filterMap_append, Bus.emission?_callsFor] at he
        rcases List.mem_append.mp he with he | he
        · rw [List.eq_of_mem_replicate he]
          exact Nat.lt_succ_self _
        · exact Nat.lt_succ_of_lt (hlt e he)
      · rw [pendings, List.filterMap_append, Bus.emission?_callsFor, List.pairwise_append]
        refine ⟨List.pairwise_replicate_of_refl, hrest, fun e he e' he' => ?_⟩
        rw [List.eq_of_mem_replicate he]
        exact Nat.le_of_lt (hlt e' he')
    | call emission number l event =>
      have hactions : ∀ actions : List (Action ε),
          (actions.map Pending.action ++ rest).filterMap Pending.emission? =
            rest.filterMap Pending.emission? := by
        simp [Pending.emission?]
      refine ⟨hnumbered, ?_, fun e he => ?_, ?_⟩
      · rw [pendings, hactions]
        exact hlt
      · have hne : emission ≠ e := by
          have hlt := hbegun emission (List.mem_append_left _ (List.mem_singleton.mpr rfl))
          exact Nat.ne_of_lt (Nat.lt_of_lt_of_le hlt he)
        simpa [Bus.callsOf, Report.callOf?, hne] using hc.called e he
      · rw [pendings, hactions]
        exact hrest
    | quiet a hq =>
      refine ⟨hnumbered, ?_, fun e he => ?_, hrest⟩
      · rw [hq.emissions]
        exact hlt
      · rw [hq.callsOf]
        exact hc.called e (hq.emissions ▸ he)

theorem leadsTo (hc : c.Nested) (h : c.LeadsTo d) : d.Nested := by
  induction h with
  | refl => exact hc
  | next _ ih => exact ih.next
  | act _ _ _ ih => exact ⟨ih.numbered, by simp [pendings, Pending.emission?], ih.called, .nil⟩
  | close _ _ ih => exact ⟨ih.numbered, by simp [pendings], ih.called, .nil⟩

end Nested

theorem Reached.nested (hc : c.Reached) : c.Nested :=
  Nested.leadsTo ⟨Registry.numbered_empty, by simp [pendings], fun _ _ => rfl, .nil⟩ hc

theorem LeadsTo.later (h : c.LeadsTo d) :
    c.bus.registry.Later d.bus.registry ∧ c.bus.emissions ≤ d.bus.emissions := by
  induction h with
  | refl => exact ⟨.refl _, Nat.le_refl _⟩
  | @next d _ ih =>
    cases ha : d.agenda with
    | nil => rwa [next_of_idle ha]
    | cons p rest =>
      rw [next_eq ha]
      exact ⟨ih.1.trans (d.bus.later_step p), Nat.le_trans ih.2 (d.bus.emissions_le_step p)⟩
  | act _ _ _ ih => exact ih
  | close _ _ ih => exact ih

theorem calls_next (he : emission < c.bus.emissions) :
    c.next.bus.callsOf emission ++ c.next.callsLeft emission =
      c.bus.callsOf emission ++ c.callsLeft emission := by
  cases ha : c.agenda with
  | nil => rw [next_of_idle ha]
  | cons p rest =>
    rw [next_eq ha]
    have hleft : c.callsLeft emission =
        (p.callOf? emission).toList ++ rest.filterMap (Pending.callOf? emission) := by
      rw [callsLeft, ha]
      cases h : p.callOf? emission <;> simp [h]
    rw [hleft, ← List.append_assoc]
    have hstep := c.bus.step_cases p
    generalize c.bus.step p = done at hstep ⊢
    cases hstep with
    | emit event ho =>
      have hnone : (c.bus.callsFor event).filterMap (Pending.callOf? emission) = [] := by
        refine List.filterMap_eq_nil_iff.mpr fun p hp => ?_
        obtain ⟨entry, -, rfl⟩ := List.mem_map.mp hp
        exact if_neg (Nat.ne_of_gt he)
      simp [callsLeft, hnone, Bus.callsOf, Pending.callOf?]
    | call e number l event =>
      by_cases heq : e = emission <;>
        simp [callsLeft, Bus.callsOf, Report.callOf?, Pending.callOf?, heq]
    | quiet a hq => simp [callsLeft, hq.callsOf, Pending.callOf?]

theorem LeadsTo.calls (h : c.LeadsTo d) (he : emission < c.bus.emissions) :
    d.bus.callsOf emission ++ d.callsLeft emission =
      c.bus.callsOf emission ++ c.callsLeft emission := by
  induction h with
  | refl => rfl
  | next h ih => rw [calls_next (Nat.lt_of_lt_of_le he h.later.2), ih]
  | act _ ha _ ih =>
    rw [← ih]
    simp [callsLeft, ha, Pending.callOf?]
  | close _ ha ih =>
    rw [← ih]
    simp [callsLeft, ha, Bus.callsOf, Bus.close]

theorem next_emit {event : ε} (ha : c.agenda = .action (.emit event) :: rest)
    (ho : c.bus.isOpen = true) :
    c.next = ⟨{ c.bus with emissions := c.bus.emissions + 1 }, c.bus.callsFor event ++ rest⟩ := by
  rw [next_eq ha]
  simp only [Bus.step, ho, if_true]

theorem Nested.callsLeft_rest (hc : c.Nested) {event : ε}
    (ha : c.agenda = .action (.emit event) :: rest) :
    rest.filterMap (Pending.callOf? c.bus.emissions) = [] := by
  have hnone := callsLeft_eq_nil fun he => Nat.lt_irrefl _ (hc.begun _ he)
  simpa [callsLeft, ha, Pending.callOf?] using hnone

theorem Nested.calls_emit (hc : c.Nested) {event : ε}
    (ha : c.agenda = .action (.emit event) :: rest) (ho : c.bus.isOpen = true)
    (h : c.next.LeadsTo d) :
    d.bus.callsOf c.bus.emissions ++ d.callsLeft c.bus.emissions = c.bus.snapshot event := by
  have hnext := next_emit ha ho
  have hmade := hc.called _ (Nat.le_refl _)
  rw [h.calls (by rw [hnext]; exact Nat.lt_succ_self _), hnext, callsLeft, List.filterMap_append,
    Bus.callOf?_callsFor, hc.callsLeft_rest ha, List.append_nil]
  simpa [Bus.callsOf] using hmade

-- What stands at the front of the agenda is done, with everything that comes of it, before what
-- stands behind it is touched.
theorem front_or_done (n : Nat) {c : Course ε} {front rest : List (Pending ε)}
    (ha : c.agenda = front ++ rest) (he : emission ≤ c.bus.emissions)
    (hf : ∀ e ∈ front.filterMap Pending.emission?, emission ≤ e) :
    (∃ j ≤ n, (next^[j] c).agenda = rest) ∨
      ∃ p front', (next^[n] c).agenda = p :: front' ++ rest ∧
        ∀ e, p.emission? = some e → emission ≤ e := by
  -- a step puts calls of a new emission or actions in front, so the front keeps to late emissions
  induction n generalizing c front with
  | zero =>
    cases front with
    | nil => exact .inl ⟨0, Nat.le_refl _, ha⟩
    | cons p front =>
      exact .inr ⟨p, front, ha, fun e hp => hf e (by simp [hp])⟩
  | succ n ih =>
    cases front with
    | nil => exact .inl ⟨0, Nat.zero_le _, ha⟩
    | cons p front =>
      have hnext := next_eq ha
      have hfront : ∀ e ∈ ((c.bus.step p).2 ++ front).filterMap Pending.emission?,
          emission ≤ e := by
        intro e hmem
        rw [List.filterMap_append] at hmem
        rcases List.mem_append.mp hmem with hmem | hmem
        · have hstep := c.bus.step_cases p
          generalize c.bus.step p = done at hstep hmem
          cases hstep with
          | emit event ho =>
            rw [Bus.emission?_callsFor] at hmem
            rw [List.eq_of_mem_replicate hmem]
            exact he
          | call => simp [Pending.emission?] at hmem
          | quiet => simp at hmem
        · refine hf e ?_
          exact ((List.sublist_cons_self p front).filterMap _).subset hmem
      have hle : emission ≤ c.next.bus.emissions := by
        rw [hnext]
        exact Nat.le_trans he (c.bus.emissions_le_step p)
      rcases ih (c := c.next) (by rw [hnext, List.append_assoc]; rfl) hle hfront with
        ⟨j, hj, hdone⟩ | hfront
      · exact .inl ⟨j + 1, Nat.succ_le_succ hj, hdone⟩
      · exact .inr hfront

theorem Nested.delivered_first (hc : c.Nested) {event : ε}
    (ha : c.agenda = .action (.emit event) :: rest) (ho : c.bus.isOpen = true) (k : Nat)
    {earlier number : Nat} {l : Listener ε} {event' : ε} {later : List (Pending ε)}
    (hk : (Course.next^[k] c.next).agenda = .call earlier number l event' :: later)
    (hlt : earlier < c.bus.emissions) :
    ∃ j ≤ k, (Course.next^[j] c.next).agenda = rest ∧
      (Course.next^[j] c.next).bus.callsOf c.bus.emissions = c.bus.snapshot event := by
  have hnext := next_emit ha ho
  have hfront : ∀ e ∈ (c.bus.callsFor event).filterMap Pending.emission?, c.bus.emissions ≤ e := by
    intro e he
    rw [Bus.emission?_callsFor] at he
    exact Nat.le_of_eq (List.eq_of_mem_replicate he).symm
  have hle : c.bus.emissions ≤ c.next.bus.emissions := by
    rw [hnext]
    exact Nat.le_succ _
  rcases front_or_done k (by rw [hnext]) hle hfront with ⟨j, hj, hdone⟩ | ⟨p, front, hfirst, hp⟩
  · refine ⟨j, hj, hdone, ?_⟩
    rw [← hc.calls_emit ha ho (LeadsTo.refl.iterate j), callsLeft, hdone, hc.callsLeft_rest ha,
      List.append_nil]
  · rw [hk] at hfirst
    obtain ⟨rfl, -⟩ := List.cons.inj hfirst
    exact absurd (hp earlier rfl) (Nat.not_le_of_lt hlt)

theorem run?_eq_some {fuel : Nat} {b b' : Bus ε} {agenda : List (Pending ε)}
    (h : b.run? fuel agenda = some b') : ∃ n ≤ fuel, next^[n] ⟨b, agenda⟩ = ⟨b', []⟩ := by
  induction fuel generalizing b agenda with
  | zero =>
    cases agenda with
    | nil => exact ⟨0, Nat.le_refl _, by rw [← Option.some.inj h]; rfl⟩
    | cons p rest => cases h
  | succ fuel ih =>
    cases agenda with
    | nil => exact ⟨0, Nat.zero_le _, by rw [← Option.some.inj h]; rfl⟩
    | cons p rest =>
      obtain ⟨n, hn, hrun⟩ := ih h
      exact ⟨n + 1, Nat.succ_le_succ hn, hrun⟩

theorem Nested.calls_run? (hc : c.Nested) {event : ε}
    (ha : c.agenda = .action (.emit event) :: rest) (ho : c.bus.isOpen = true) {fuel : Nat}
    {b : Bus ε} (h : c.bus.run? fuel c.agenda = some b) :
    b.callsOf c.bus.emissions = c.bus.snapshot event := by
  obtain ⟨n, -, hrun⟩ := run?_eq_some h
  cases n with
  | zero =>
    have hidle : c.agenda = [] := congrArg Course.agenda hrun
    rw [ha] at hidle
    cases hidle
  | succ n =>
    have hcalls := hc.calls_emit ha ho (LeadsTo.refl.iterate n)
    rw [Function.iterate_succ_apply] at hrun
    rw [hrun] at hcalls
    simpa [callsLeft] using hcalls

end Course

open Course in
-- Whatever listeners do when they are called, an emission makes exactly the calls it had to make
-- when it began. One that begins meanwhile is over before the next listener is called.
theorem emission_calls_snapshot {c : Course ε} (hc : c.Reached) {event : ε}
    {rest : List (Pending ε)} (ha : c.agenda = .action (.emit event) :: rest)
    (ho : c.bus.isOpen = true) :
    ((c.bus.snapshot event).map Prod.fst).Pairwise (· < ·) ∧
    (∀ d, c.next.LeadsTo d →
      d.bus.callsOf c.bus.emissions ++ d.callsLeft c.bus.emissions = c.bus.snapshot event) ∧
    (∀ fuel b, c.bus.run? fuel c.agenda = some b →
      b.callsOf c.bus.emissions = c.bus.snapshot event) ∧
    (∀ d, c.next.LeadsTo d → ∀ entry ∈ d.bus.registry.entries, entry ∉ c.bus.registry.entries →
      (∀ d', d.LeadsTo d' → entry.1 ∉ (d'.bus.callsOf c.bus.emissions).map Prod.fst) ∧
      ∀ event' rest', d.agenda = .action (.emit event') :: rest' → d.bus.isOpen = true →
        ∀ d', d.next.LeadsTo d' → (entry.1, entry.2.tag, event') ∈
          d'.bus.callsOf d.bus.emissions ++ d'.callsLeft d.bus.emissions) ∧
    ∀ n k event' inner number l later,
      let d := next^[n] c.next
      d.agenda = .action (.emit event') :: inner → d.bus.isOpen = true →
      (next^[k] d.next).agenda = .call c.bus.emissions number l event :: later →
      ∃ j ≤ k, (next^[j] d.next).agenda = inner ∧
        (next^[j] d.next).bus.callsOf d.bus.emissions = d.bus.snapshot event' := by
  have hnested := hc.nested
  have hfirst : c.LeadsTo c.next := LeadsTo.refl.next
  have hnumbers : (c.bus.snapshot event).map Prod.fst = c.bus.registry.entries.map Prod.fst := by
    simp [Bus.snapshot]
  refine ⟨?_, fun d hd => hnested.calls_emit ha ho hd, fun fuel b h => hnested.calls_run? ha ho h,
    fun d hd entry he hnew => ⟨fun d' hd' hcalled => ?_, fun event' rest' ha' ho' d' hd' => ?_⟩,
    fun n k event' inner number l later ha' ho' hk => ?_⟩
  · rw [hnumbers]
    exact hnested.numbered.ascending
  · -- its number was not given yet, while all that are called have numbers that were
    have hcalls := hnested.calls_emit ha ho (hd.trans hd')
    have hold : entry.1 ∈ c.bus.registry.entries.map Prod.fst := by
      rw [← hnumbers, ← hcalls, List.map_append]
      exact List.mem_append_left _ hcalled
    obtain ⟨old, hmem, heq⟩ := List.mem_map.mp hold
    have hlt := hnested.numbered.lt_next old hmem
    rcases (hfirst.trans hd).later.1.entries entry he with hin | hle
    · exact hnew hin
    · omega
  · rw [(hnested.leadsTo (hfirst.trans hd)).calls_emit ha' ho' hd']
    exact List.mem_map.mpr ⟨entry, he, rfl⟩
  · have hd : c.next.LeadsTo (next^[n] c.next) := LeadsTo.refl.iterate n
    refine (hnested.leadsTo (hfirst.trans hd)).delivered_first ha' ho' k hk ?_
    refine Nat.lt_of_lt_of_le ?_ hd.later.2
    rw [next_emit ha ho]
    exact Nat.lt_succ_self _

def meddling : Listener Nat :=
  ⟨"a", fun _ event =>
    if event = 0 then [.unsubscribe "b", .subscribe "c" fun _ _ => [], .emit 1] else []⟩

def meddled : Bus Nat :=
  ((Bus.empty.step (.action (.subscribe "a" meddling.react))).1.step
    (.action (.subscribe "b" fun _ _ => []))).1

open Course in
theorem emission_calls_snapshot_meddled :
    let c : Course Nat := ⟨meddled, [.action (.emit 0)]⟩
    (∃ b, c.bus.run? 20 c.agenda = some b ∧ b.callsOf 0 = [(0, "a", 0), (1, "b", 0)]) ∧
    2 ∉ ((next^[7] c.next).bus.callsOf 0).map Prod.fst ∧
    (2, "c", 1) ∈ (next^[7] c.next).bus.callsOf 1 ∧
    ∃ j ≤ 2, (next^[j] (next^[3] c.next).next).agenda.length = 1 ∧
      (next^[j] (next^[3] c.next).next).bus.callsOf 1 = [(0, "a", 1), (2, "c", 1)] := by
  intro c
  have h₀ : LeadsTo ⟨.empty, []⟩ (⟨.empty, []⟩ : Course Nat) := .refl
  have h₁ := (h₀.act rfl (.subscribe "a" meddling.react)).next
  have h₂ := (h₁.act rfl (.subscribe "b" fun _ _ => [])).next
  have hc : c.Reached := h₂.act rfl (.emit 0)
  obtain ⟨-, -, hrun, hlate, hnested⟩ := emission_calls_snapshot hc rfl rfl
  have hd : c.next.LeadsTo (next^[3] c.next) := LeadsTo.refl.iterate 3
  have hthird : (2, ⟨"c", fun _ _ => []⟩) ∈ (next^[3] c.next).bus.registry.entries :=
    .tail _ (.head _)
  have hnew : (2, ⟨"c", fun _ _ => []⟩) ∉ c.bus.registry.entries := by
    intro hmem
    have hnumber := List.mem_map_of_mem (f := Prod.fst) hmem
    exact absurd hnumber (by decide)
  obtain ⟨hnot, hcalled⟩ := hlate _ hd _ hthird hnew
  have hsecond := hcalled 1 _ rfl rfl _ (LeadsTo.refl.iterate 3)
  have hover : (next^[7] c.next).callsLeft 1 = [] := rfl
  obtain ⟨j, hj, hagenda, hdelivered⟩ := hnested 3 2 1 _ 1 ⟨"b", fun _ _ => []⟩ [] rfl rfl rfl
  refine ⟨⟨_, rfl, hrun 20 _ rfl⟩, hnot _ (LeadsTo.refl.iterate 4), ?_, j, hj, ?_, hdelivered⟩
  · rw [← List.append_nil ((next^[7] c.next).bus.callsOf 1), ← hover]
    exact hsecond
  · rw [hagenda]
    rfl

end BotConsole.Event
