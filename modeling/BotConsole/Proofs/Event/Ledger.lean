import BotConsole.Proofs.Event.Emission
import BotConsole.Proofs.Lookup
import Mathlib.Data.List.Basic
import Mathlib.Data.List.Nodup

namespace BotConsole.Event

namespace Held

theorem find?_release (held : Held) (tag other : String) :
    (held.release tag).find? other = if other = tag then none else held.find? other := by
  by_cases hother : other = tag <;>
    simpa [release, find?, hother] using lookup_filter_key held (· != tag) other

theorem find?_hold (held : Held) (tag other : String) (number : Nat) :
    (held.hold tag number).find? other =
      if other = tag then some number else held.find? other := by
  by_cases hother : other = tag
  · simp [hold, find?, hother]
  · have hne : (other == tag) = false := by simp [hother]
    have hrelease := find?_release held tag other
    rw [if_neg hother] at hrelease ⊢
    rw [← hrelease]
    simp [hold, find?, List.lookup_cons, hne]

end Held

namespace Subscriptions

variable {L : Type} {s : Subscriptions L} {tag : String}

theorem cancel_of_none (h : s.held.find? tag = none) : s.cancel tag = s := by
  simp only [cancel, h]

theorem cancel_of_some {number : Nat} (h : s.held.find? tag = some number) :
    s.cancel tag = ⟨s.registry.cancel number, s.held.release tag⟩ := by
  simp only [cancel, h]

end Subscriptions

-- What has become of the handle of a subscription: it is held under a name, or used up.
inductive Fate where
  | held (tag : String)
  | cancelled
  | detached
  deriving DecidableEq

abbrev Ledger (L : Type) := List (L × Fate)

namespace Ledger

variable {L : Type} {ledger : Ledger L} {n : Nat}

def settle (ledger : Ledger L) (tag : String) (fate : Fate) : Ledger L :=
  ledger.map fun (listener, f) => (listener, if f = .held tag then fate else f)

def subscribe (ledger : Ledger L) (tag : String) (listener : L) : Ledger L :=
  ledger.settle tag .cancelled ++ [(listener, .held tag)]

def registered (ledger : Ledger L) : List (Nat × L) :=
  ledger.zipIdx.filterMap fun ((listener, fate), n) =>
    if fate = .cancelled then none else some (n, listener)

theorem mem_registered {listener : L} : (n, listener) ∈ ledger.registered ↔
    ∃ fate, ledger[n]? = some (listener, fate) ∧ fate ≠ .cancelled := by
  simp only [registered, List.mem_filterMap, Prod.exists]
  constructor
  · rintro ⟨l, fate, m, hmem, heq⟩
    by_cases hfate : fate = .cancelled
    · simp [hfate] at heq
    · simp only [hfate, if_false, Option.some.injEq, Prod.mk.injEq] at heq
      obtain ⟨rfl, rfl⟩ := heq
      exact ⟨fate, List.mk_mem_zipIdx_iff_getElem?.mp hmem, hfate⟩
  · rintro ⟨fate, hget, hfate⟩
    exact ⟨listener, fate, n, List.mk_mem_zipIdx_iff_getElem?.mpr hget, by simp [hfate]⟩

theorem registered_concat (ledger : Ledger L) (listener : L) (tag : String) :
    Ledger.registered (ledger ++ [(listener, .held tag)]) =
      ledger.registered ++ [(ledger.length, listener)] := by
  simp [registered, List.zipIdx_append]

theorem length_registered (ledger : Ledger L) :
    ledger.registered.length + ledger.countP (·.2 = .cancelled) = ledger.length := by
  have hfrom : ∀ k, ((ledger.zipIdx k).filterMap fun ((listener, fate), n) =>
      if fate = .cancelled then none else some (n, listener)).length +
        ledger.countP (·.2 = .cancelled) = ledger.length := by
    induction ledger with
    | nil => simp
    | cons entry ledger ih =>
      intro k
      have htail := ih (k + 1)
      by_cases hfate : entry.2 = .cancelled
      · simp only [List.zipIdx_cons, List.filterMap_cons, hfate, if_true, List.length_cons,
          List.countP_cons, decide_true] at htail ⊢
        omega
      · simp only [List.zipIdx_cons, List.filterMap_cons, hfate, if_false, List.length_cons,
          List.countP_cons, decide_false] at htail ⊢
        simp only [Bool.false_eq_true, if_false]
        omega
  exact hfrom 0

theorem getElem?_settle (ledger : Ledger L) (tag : String) (fate : Fate) (n : Nat) :
    (ledger.settle tag fate)[n]? =
      ledger[n]?.map fun (listener, f) => (listener, if f = .held tag then fate else f) := by
  simp [settle]

theorem settle_eq_self {tag : String} (h : ∀ (n : Nat) (l : L), ledger[n]? ≠ some (l, .held tag))
    (fate : Fate) : ledger.settle tag fate = ledger := by
  apply List.ext_getElem?
  intro n
  rw [getElem?_settle]
  cases hget : ledger[n]? with
  | none => rfl
  | some entry =>
    obtain ⟨l, f⟩ := entry
    have hf : f ≠ .held tag := fun hf => h n l (hf ▸ hget)
    simp [hf]

theorem registered_settle_detached (ledger : Ledger L) (tag : String) :
    (ledger.settle tag .detached).registered = ledger.registered := by
  rw [registered, settle, List.zipIdx_map, List.filterMap_map, registered]
  congr 1
  funext ⟨⟨l, f⟩, m⟩
  by_cases hf : f = .held tag <;> simp [hf]

theorem registered_settle_cancelled {tag : String}
    (h : ∀ m, (∃ l, ledger[m]? = some (l, .held tag)) ↔ m = n) :
    (ledger.settle tag .cancelled).registered = ledger.registered.filter (·.1 != n) := by
  rw [registered, settle, List.zipIdx_map, List.filterMap_map, registered, List.filter_filterMap]
  apply List.filterMap_congr
  rintro ⟨⟨l, f⟩, m⟩ hmem
  have hget := List.mk_mem_zipIdx_iff_getElem?.mp hmem
  by_cases hf : f = .held tag
  · have hm : m = n := (h m).mp ⟨l, hf ▸ hget⟩
    simp [hf, hm, Option.filter_some]
  · have hm : m ≠ n := by
      intro hm
      obtain ⟨l', hl'⟩ := (h m).mpr hm
      rw [hget] at hl'
      exact hf (Prod.mk.inj (Option.some.inj hl')).2
    by_cases hcancelled : f = .cancelled <;> simp [hf, hcancelled, hm, Option.filter_some]

-- Keeping the books: a subscription has its place in the order as its number.
structure Accounts (ledger : Ledger L) (s : Subscriptions L) : Prop where
  next : s.registry.next = ledger.length
  entries : s.registry.entries = ledger.registered
  held : ∀ tag n, s.held.find? tag = some n ↔ ∃ l, ledger[n]? = some (l, .held tag)

namespace Accounts

variable {s : Subscriptions L} {tag : String}

theorem empty : Accounts ([] : Ledger L) .empty :=
  ⟨rfl, rfl, by simp [Subscriptions.empty, Held.find?]⟩

theorem not_held (h : ledger.Accounts s) (hnone : s.held.find? tag = none) (n : Nat) (l : L) :
    ledger[n]? ≠ some (l, .held tag) := by
  intro hget
  rw [(h.held tag n).mpr ⟨l, hget⟩] at hnone
  cases hnone

theorem lt_of_held (h : ledger.Accounts s) (hfind : s.held.find? tag = some n) :
    n < ledger.length := by
  obtain ⟨l, hget⟩ := (h.held tag n).mp hfind
  exact (List.getElem?_eq_some_iff.mp hget).1

theorem held_iff (h : ledger.Accounts s) (hsome : s.held.find? tag = some n) (m : Nat) :
    (∃ l, ledger[m]? = some (l, .held tag)) ↔ m = n := by
  rw [← h.held tag m, hsome, Option.some.injEq, eq_comm]

theorem held_settle (h : ledger.Accounts s) {fate : Fate} (hfate : ∀ tag, fate ≠ .held tag)
    (other : String) (n : Nat) : (s.held.release tag).find? other = some n ↔
      ∃ l, (ledger.settle tag fate)[n]? = some (l, .held other) := by
  rw [Held.find?_release]
  simp only [getElem?_settle, Option.map_eq_some_iff, Prod.exists, Prod.mk.injEq]
  by_cases hother : other = tag
  · simp only [hother, if_true, reduceCtorEq, false_iff]
    rintro ⟨-, l, f, -, -, hf⟩
    split at hf
    · exact hfate tag hf
    · exact absurd hf ‹_›
  · rw [if_neg hother, h.held]
    constructor
    · rintro ⟨l, hget⟩
      exact ⟨l, l, .held other, hget, rfl, by simp [hother]⟩
    · rintro ⟨-, l, f, hget, -, hf⟩
      split at hf
      · exact absurd hf (hfate other)
      · exact ⟨l, hf ▸ hget⟩

theorem cancel (h : ledger.Accounts s) (tag : String) :
    (ledger.settle tag .cancelled).Accounts (s.cancel tag) := by
  cases hfind : s.held.find? tag with
  | none =>
    rw [settle_eq_self (h.not_held hfind), Subscriptions.cancel_of_none hfind]
    exact h
  | some number =>
    rw [Subscriptions.cancel_of_some hfind]
    refine ⟨?_, ?_, h.held_settle (by simp)⟩
    · simpa [Registry.cancel, settle] using h.next
    · rw [registered_settle_cancelled (h.held_iff hfind), ← h.entries]
      rfl

theorem detach (h : ledger.Accounts s) (tag : String) :
    (ledger.settle tag .detached).Accounts (s.detach tag) := by
  refine ⟨?_, ?_, h.held_settle (by simp)⟩
  · simpa [Subscriptions.detach, settle] using h.next
  · rw [registered_settle_detached]
    exact h.entries

theorem registry_subscribe (h : ledger.Accounts s) (tag : String) (listener : L) :
    (s.subscribe tag listener).registry.next = ledger.length + 1 ∧
    (s.subscribe tag listener).registry.entries =
      (s.cancel tag).registry.entries ++ [(ledger.length, listener)] := by
  unfold Subscriptions.subscribe Subscriptions.cancel
  cases hfind : s.held.find? tag with
  | none => simp [Registry.subscribe, h.next]
  | some number =>
    have hlt := h.lt_of_held hfind
    have hne : ledger.length ≠ number := by omega
    simp [Registry.subscribe, Registry.cancel, h.next, hne]

theorem subscribe (h : ledger.Accounts s) (tag : String) (listener : L) :
    (ledger.subscribe tag listener).Accounts (s.subscribe tag listener) := by
  obtain ⟨hnext, hentries⟩ := h.registry_subscribe tag listener
  have hlength : (ledger.settle tag .cancelled).length = ledger.length := by simp [settle]
  refine ⟨?_, ?_, fun other n => ?_⟩
  · rw [hnext, Ledger.subscribe, List.length_append, hlength]
    rfl
  · rw [hentries, Ledger.subscribe, registered_concat, (h.cancel tag).entries, hlength]
  · have hheld : (s.subscribe tag listener).held = s.held.hold tag s.registry.next := rfl
    rw [hheld, Held.find?_hold, h.next, Ledger.subscribe, List.getElem?_append, hlength]
    by_cases hn : n < ledger.length
    · rw [if_pos hn, ← h.held_settle (by simp), Held.find?_release]
      by_cases hother : other = tag
      · simp [hother, Ne.symm (Nat.ne_of_lt hn)]
      · rw [if_neg hother, if_neg hother]
    · rw [if_neg hn]
      by_cases hother : other = tag
      · rw [if_pos hother, hother]
        by_cases heq : n = ledger.length
        · simp [heq]
        · have hnone : [(listener, Fate.held tag)][n - ledger.length]? = none := by
            rw [List.getElem?_eq_none_iff, List.length_singleton]
            omega
          simp [hnone, Ne.symm heq]
      · rw [if_neg hother]
        constructor
        · intro hfind
          exact absurd (h.lt_of_held hfind) hn
        · rintro ⟨l, hget⟩
          have hmem := List.mem_singleton.mp (List.mem_of_getElem? hget)
          cases hmem
          exact absurd rfl hother

end Accounts

end Ledger

variable {ε : Type}

inductive Deed (ε : Type) where
  | done (a : Action ε)
  | closed

structure Books (ε : Type) where
  isOpen : Bool
  ledger : Ledger (Listener ε)

namespace Books

def enter (b : Books ε) : Deed ε → Books ε
  | .done (.subscribe tag react) =>
    if b.isOpen then { b with ledger := b.ledger.subscribe tag ⟨tag, react⟩ } else b
  | .done (.unsubscribe tag) => { b with ledger := b.ledger.settle tag .cancelled }
  | .done (.detach tag) => { b with ledger := b.ledger.settle tag .detached }
  | .done (.emit _) | .done .count => b
  | .closed => { b with isOpen := false }

def after (b : Books ε) (deeds : List (Deed ε)) : Books ε :=
  deeds.foldl enter b

theorem after_append (b : Books ε) (deeds deeds' : List (Deed ε)) :
    b.after (deeds ++ deeds') = (b.after deeds).after deeds' :=
  List.foldl_append

def begun : Books ε := ⟨true, []⟩

-- Books are never rewritten but for the handles that are still held.
theorem detached_after (b : Books ε) (deeds : List (Deed ε)) {n : Nat} {l : Listener ε}
    (h : b.ledger[n]? = some (l, .detached)) :
    (b.after deeds).ledger[n]? = some (l, .detached) := by
  induction deeds generalizing b with
  | nil => exact h
  | cons deed deeds ih =>
    have hsettle (tag : String) (fate : Fate) :
        (b.ledger.settle tag fate)[n]? = some (l, .detached) := by
      simp [Ledger.getElem?_settle, h]
    apply ih (b.enter deed)
    cases deed with
    | closed => exact h
    | done a =>
      cases a with
      | emit event => exact h
      | count => exact h
      | unsubscribe tag => exact hsettle tag .cancelled
      | detach tag => exact hsettle tag .detached
      | subscribe tag react =>
        simp only [enter]
        split
        · have hlt := (List.getElem?_eq_some_iff.mp (hsettle tag .cancelled)).1
          simp only [Ledger.subscribe]
          rw [List.getElem?_append_left hlt, hsettle]
        · exact h

end Books

namespace Bus

def listeners (b : Bus ε) : List (Nat × Listener ε) :=
  if b.isOpen then b.registry.entries else []

variable {b : Bus ε}

theorem listeners_of_open (ho : b.isOpen = true) : b.listeners = b.registry.entries :=
  if_pos ho

theorem listeners_unsubscribe (ho : b.isOpen = true) (tag : String) :
    (b.step (.action (.unsubscribe tag))).1.listeners =
      (b.subscriptions.cancel tag).registry.entries :=
  if_pos ho

theorem listeners_subscribe (ho : b.isOpen = true) (tag : String)
    (react : Nat → ε → List (Action ε)) :
    (b.step (.action (.subscribe tag react))).1.listeners =
      (b.subscriptions.subscribe tag ⟨tag, react⟩).registry.entries := by
  simp only [step, ho, if_true]
  exact if_pos rfl

theorem isOpen_step (b : Bus ε) (p : Pending ε) : (b.step p).1.isOpen = b.isOpen := by
  cases p with
  | call emission number l event => rfl
  | action a =>
    cases a with
    | emit event | subscribe tag react =>
      simp only [step]
      split <;> rfl
    | unsubscribe tag | detach tag | count => rfl

structure Audited (b : Bus ε) (books : Books ε) : Prop where
  isOpen : b.isOpen = books.isOpen
  accounts : books.ledger.Accounts b.subscriptions

theorem audited_empty : (empty : Bus ε).Audited .begun :=
  ⟨rfl, .empty⟩

theorem Audited.step {books : Books ε} (h : b.Audited books) (a : Action ε) :
    (b.step (.action a)).1.Audited (books.enter (.done a)) := by
  cases a with
  | emit event =>
    simp only [Bus.step]
    split
    · exact ⟨h.isOpen, h.accounts⟩
    · exact h
  | subscribe tag react =>
    simp only [Bus.step, Books.enter, h.isOpen]
    split
    · exact ⟨rfl, h.accounts.subscribe tag ⟨tag, react⟩⟩
    · exact h
  | unsubscribe tag => exact ⟨h.isOpen, h.accounts.cancel tag⟩
  | detach tag => exact ⟨h.isOpen, h.accounts.detach tag⟩
  | count => exact ⟨h.isOpen, h.accounts⟩

end Bus

namespace Course

variable {c d : Course ε} {deeds deeds' : List (Deed ε)}

def nextDeeds (c : Course ε) : List (Deed ε) :=
  match c.agenda with
  | .action a :: _ => [.done a]
  | _ => []

-- What may come of a course, with all that is done on the way.
inductive Does (c : Course ε) : List (Deed ε) → Course ε → Prop where
  | refl : Does c [] c
  | next {deeds : List (Deed ε)} {d : Course ε} (h : Does c deeds d) :
    Does c (deeds ++ d.nextDeeds) d.next
  | act {deeds : List (Deed ε)} {d : Course ε} (h : Does c deeds d) (ha : d.agenda = [])
    (a : Action ε) : Does c deeds ⟨d.bus, [.action a]⟩
  | close {deeds : List (Deed ε)} {d : Course ε} (h : Does c deeds d) (ha : d.agenda = []) :
    Does c (deeds ++ [.closed]) ⟨d.bus.close, []⟩

theorem Does.leadsTo (h : c.Does deeds d) : c.LeadsTo d := by
  induction h with
  | refl => exact .refl
  | next _ ih => exact ih.next
  | act _ ha a ih => exact ih.act ha a
  | close _ ha ih => exact ih.close ha

theorem LeadsTo.exists_does (h : c.LeadsTo d) : ∃ deeds, c.Does deeds d := by
  induction h with
  | refl => exact ⟨_, .refl⟩
  | next _ ih =>
    obtain ⟨deeds, h⟩ := ih
    exact ⟨_, h.next⟩
  | act _ ha a ih =>
    obtain ⟨deeds, h⟩ := ih
    exact ⟨_, h.act ha a⟩
  | close _ ha ih =>
    obtain ⟨deeds, h⟩ := ih
    exact ⟨_, h.close ha⟩

theorem Does.audited {books : Books ε} (h : c.Does deeds d) (hc : c.bus.Audited books) :
    d.bus.Audited (books.after deeds) := by
  induction h with
  | refl => exact hc
  | @next deeds d _ ih =>
    rw [Books.after_append]
    cases ha : d.agenda with
    | nil =>
      have hnone : d.nextDeeds = [] := by simp [nextDeeds, ha]
      rwa [next_of_idle ha, hnone]
    | cons p rest =>
      rw [next_eq ha, nextDeeds, ha]
      cases p with
      | call emission number l event => exact ⟨ih.isOpen, ih.accounts⟩
      | action a => exact ih.step a
  | act _ _ _ ih => exact ih
  | close _ _ ih =>
    rw [Books.after_append]
    exact ⟨rfl, ih.accounts⟩

-- Nobody is called on a bus that is gone, and nobody is there.
structure Over (c : Course ε) (calls emissions : Nat) : Prop where
  isOpen : c.bus.isOpen = false
  agenda : ∀ p ∈ c.agenda, ∃ a, p = .action a
  calls : c.bus.calls = calls
  emissions : c.bus.emissions = emissions

theorem Over.next {calls emissions : Nat} (h : c.Over calls emissions) :
    c.next.Over calls emissions := by
  cases ha : c.agenda with
  | nil => rwa [next_of_idle ha]
  | cons p rest =>
    rw [next_eq ha]
    have hrest : ∀ q ∈ rest, ∃ a, q = .action a := fun q hq => h.agenda q (by simp [ha, hq])
    obtain ⟨a, rfl⟩ := h.agenda p (by simp [ha])
    cases a with
    | emit event =>
      simp only [Bus.step, h.isOpen]
      exact ⟨h.isOpen, hrest, h.calls, h.emissions⟩
    | subscribe tag react =>
      simp only [Bus.step, h.isOpen]
      exact ⟨h.isOpen, hrest, h.calls, h.emissions⟩
    | unsubscribe tag => exact ⟨h.isOpen, hrest, h.calls, h.emissions⟩
    | detach tag => exact ⟨h.isOpen, hrest, h.calls, h.emissions⟩
    | count => exact ⟨h.isOpen, hrest, h.calls, h.emissions⟩

theorem LeadsTo.over {calls emissions : Nat} (h : c.LeadsTo d) (hc : c.Over calls emissions) :
    d.Over calls emissions := by
  induction h with
  | refl => exact hc
  | next _ ih => exact ih.next
  | act _ _ a ih => exact ⟨ih.isOpen, by simp, ih.calls, ih.emissions⟩
  | close _ _ ih => exact ⟨rfl, by simp, ih.calls, ih.emissions⟩

theorem isOpen_next (c : Course ε) : c.next.bus.isOpen = c.bus.isOpen := by
  cases ha : c.agenda with
  | nil => rw [next_of_idle ha]
  | cons p rest =>
    rw [next_eq ha]
    exact c.bus.isOpen_step p

-- A bus is given up when nothing is left to do, so no call waits on one that is gone.
theorem Reached.over (hc : c.Reached) (ho : c.bus.isOpen = false) :
    c.Over c.bus.calls c.bus.emissions := by
  induction hc with
  | refl => cases ho
  | @next d _ ih =>
    have hover := (ih (d.isOpen_next ▸ ho)).next
    exact ⟨ho, hover.agenda, rfl, rfl⟩
  | act _ _ a _ => exact ⟨ho, by simp, rfl, rfl⟩
  | close _ _ _ => exact ⟨rfl, by simp, rfl, rfl⟩

end Course

theorem Registry.cancel_of_mem {L : Type} {r : Registry L} (hr : r.Numbered) {number : Nat} {l : L}
    (hmem : (number, l) ∈ r.entries) : ∃ before after,
      r.entries = before ++ (number, l) :: after ∧ (r.cancel number).entries = before ++ after := by
  obtain ⟨before, after, hsplit⟩ := List.append_of_mem hmem
  have hnodup := hr.nodup
  rw [hsplit, List.map_append, List.map_cons, List.nodup_middle, List.nodup_cons,
    ← List.map_append] at hnodup
  have hothers : ∀ entry ∈ before ++ after, (entry.1 != number) = true := by
    intro entry hentry
    simp only [bne_iff_ne, ne_eq]
    intro heq
    exact hnodup.1 (List.mem_map.mpr ⟨entry, hentry, heq⟩)
  refine ⟨before, after, hsplit, ?_⟩
  have hself : ((number, l).1 != number) = false := by simp
  simp only [Registry.cancel, hsplit, List.filter_append, List.filter_cons, hself,
    Bool.false_eq_true, if_false]
  rw [← List.filter_append, List.filter_eq_self.mpr hothers]

open Course in
-- The listeners that are registered are those whose handle was neither cancelled nor given up for
-- a new one, in the order of their subscriptions. On a bus that is gone handles have no effect.
theorem registry_follows_handles {deeds : List (Deed ε)} {c : Course ε}
    (h : Does ⟨.empty, []⟩ deeds c) :
    let ledger := (Books.begun.after deeds).ledger
    let handle := c.bus.subscriptions.held.find?
    (∀ n l, (n, l) ∈ c.bus.listeners ↔ c.bus.isOpen = true ∧
      ∃ fate, ledger[n]? = some (l, fate) ∧ fate ≠ .cancelled) ∧
    (c.bus.listeners.map Prod.fst).Pairwise (· < ·) ∧
    (c.bus.isOpen = true → ∃ count, c.bus.count = some count ∧
      count + ledger.countP (·.2 = .cancelled) = ledger.length) ∧
    (∀ tag n, handle tag = some n ↔ ∃ l, ledger[n]? = some (l, .held tag)) ∧
    (c.bus.isOpen = true → ∀ tag,
      (∀ n, handle tag = some n → ∃ before l after,
        c.bus.listeners = before ++ (n, l) :: after ∧
        (c.bus.step (.action (.unsubscribe tag))).1.listeners = before ++ after) ∧
      (handle tag = none → (c.bus.step (.action (.unsubscribe tag))).1 = c.bus) ∧
      (c.bus.step (.action (.detach tag))).1.listeners = c.bus.listeners ∧
      ∀ react, (c.bus.step (.action (.subscribe tag react))).1.listeners =
        (c.bus.step (.action (.unsubscribe tag))).1.listeners ++ [(ledger.length, ⟨tag, react⟩)]) ∧
    (∀ d, c.LeadsTo d →
      (∀ entry ∈ d.bus.listeners, entry ∈ c.bus.listeners ∨ ledger.length ≤ entry.1) ∧
      ∀ n l, ledger[n]? = some (l, .detached) → d.bus.isOpen = true → (n, l) ∈ d.bus.listeners) ∧
    (c.bus.isOpen = false → ∀ d, c.LeadsTo d →
      d.bus.listeners = [] ∧ d.bus.count = none ∧ d.bus.calls = c.bus.calls ∧
      d.bus.emissions = c.bus.emissions) := by
  intro ledger handle
  have hreached : c.Reached := h.leadsTo
  obtain ⟨hopen, haccounts⟩ := h.audited Bus.audited_empty
  have hnumbered := hreached.nested.numbered
  have hgone : c.bus.isOpen = false → ∀ d, c.LeadsTo d → d.Over c.bus.calls c.bus.emissions :=
    fun ho d hd => hd.over (hreached.over ho)
  refine ⟨fun n l => ?_, ?_, fun ho => ?_, haccounts.held, fun ho tag => ⟨fun n hn => ?_,
    fun hnone => ?_, rfl, fun react => ?_⟩, fun d hd => ⟨fun entry hentry => ?_, ?_⟩,
    fun ho d hd => ?_⟩
  · cases ho : c.bus.isOpen with
    | false => simp [Bus.listeners, ho]
    | true => simp [Bus.listeners, ho, haccounts.entries, Ledger.mem_registered, ledger]
  · unfold Bus.listeners
    split
    · exact hnumbered.ascending
    · exact .nil
  · refine ⟨_, if_pos ho, ?_⟩
    rw [Registry.count, haccounts.entries]
    exact Ledger.length_registered ledger
  · obtain ⟨l, hget⟩ := (haccounts.held tag n).mp hn
    have hmem : (n, l) ∈ c.bus.registry.entries := by
      rw [haccounts.entries, Ledger.mem_registered]
      exact ⟨_, hget, by simp⟩
    obtain ⟨before, after, hentries, hcancel⟩ := Registry.cancel_of_mem hnumbered hmem
    refine ⟨before, l, after, ?_, ?_⟩
    · rw [Bus.listeners_of_open ho, hentries]
    · rw [Bus.listeners_unsubscribe ho, Subscriptions.cancel_of_some hn, hcancel]
  · simp only [Bus.step, Subscriptions.cancel_of_none hnone]
  · rw [Bus.listeners_subscribe ho, Bus.listeners_unsubscribe ho]
    exact (haccounts.registry_subscribe tag ⟨tag, react⟩).2
  · cases ho : c.bus.isOpen with
    | false =>
      rw [Bus.listeners, (hgone ho d hd).isOpen] at hentry
      cases hentry
    | true =>
      rw [Bus.listeners_of_open ho, ← haccounts.next]
      refine hd.later.1.entries entry ?_
      unfold Bus.listeners at hentry
      split at hentry
      · exact hentry
      · cases hentry
  · intro n l hget ho
    obtain ⟨deeds', hd⟩ := hd.exists_does
    obtain ⟨-, hlater⟩ := hd.audited ⟨hopen, haccounts⟩
    have hstill := Books.detached_after _ deeds' hget
    rw [Bus.listeners, if_pos ho, hlater.entries, Ledger.mem_registered]
    exact ⟨_, hstill, by simp⟩
  · have hover := hgone ho d hd
    refine ⟨?_, ?_, hover.calls, hover.emissions⟩
    · rw [Bus.listeners, hover.isOpen]
      rfl
    · rw [Bus.count, hover.isOpen]
      rfl

open Course in
theorem registry_follows_handles_meddled :
    let c : Course Nat := next^[8] ⟨meddled, [.action (.emit 0)]⟩
    let kept : Course Nat := next ⟨c.bus, [.action (.detach "a")]⟩
    (∃ count, c.bus.count = some count ∧ count + 1 = 3) ∧
    (c.bus.step (.action (.unsubscribe "b"))).1 = c.bus ∧
    (∃ before l after, c.bus.listeners = before ++ (2, l) :: after ∧
      (c.bus.step (.action (.unsubscribe "c"))).1.listeners = before ++ after) ∧
    (∀ d, kept.LeadsTo d → d.bus.isOpen = true → (0, meddling) ∈ d.bus.listeners) ∧
    ∀ d, LeadsTo ⟨kept.bus.close, []⟩ d → d.bus.listeners = [] := by
  intro c kept
  have h₀ : Does ⟨.empty, []⟩ [] (⟨.empty, []⟩ : Course Nat) := .refl
  have h₁ := (h₀.act rfl (.subscribe "a" meddling.react)).next
  have h₂ := (h₁.act rfl (.subscribe "b" fun _ _ => [])).next
  have h₃ := h₂.act rfl (.emit 0)
  have hc : Does ⟨.empty, []⟩ _ c := h₃.next.next.next.next.next.next.next.next
  have hkept : Does ⟨.empty, []⟩ _ kept := (hc.act rfl (.detach "a")).next
  obtain ⟨-, -, hcount, -, hcancel, -, -⟩ := registry_follows_handles hc
  obtain ⟨-, -, -, -, -, hlater, -⟩ := registry_follows_handles hkept
  obtain ⟨-, -, -, -, -, -, hgone⟩ := registry_follows_handles (hkept.close rfl)
  obtain ⟨-, hused, -, -⟩ := hcancel rfl "b"
  obtain ⟨hexact, -, -, -⟩ := hcancel rfl "c"
  exact ⟨hcount rfl, hused rfl, hexact 2 rfl, fun d hd ho => (hlater d hd).2 0 meddling rfl ho,
    fun d hd => (hgone rfl d hd).1⟩

end BotConsole.Event
