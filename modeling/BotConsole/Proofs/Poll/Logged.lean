import BotConsole.Proofs.Event.Registry
import BotConsole.Proofs.Poll.Frame

namespace BotConsole.Poll

open BotConsole.Task (Failure Status)

variable {α : Type}

-- A selection of the log that leaves out what those hear who watch.
structure Overlooks (select : Entry → Option α) : Prop where
  seen : ∀ tag s, select (.seen tag s) = none
  closed : ∀ tag, select (.closed tag) = none

-- One that also leaves out what they could hear, and what those see who look.
structure Ignores (select : Entry → Option α) : Prop extends Overlooks select where
  published : ∀ s, select (.published s) = none
  observed : ∀ s error published, select (.observed s error published) = none

namespace Poller

variable {select : Entry → Option α} {p q r : Poller}

def logged (select : Entry → Option α) (p : Poller) : List (Nat × α) :=
  p.log.filterMap fun (time, e) => (select e).map (time, ·)

theorem logged_record (select : Entry → Option α) (p : Poller) (e : Entry) :
    (p.record e).logged select =
      p.logged select ++ ((select e).map (p.now, ·)).toList := by
  cases he : select e <;> simp [logged, record, he]

-- From one poller to the other nothing is logged that the selection takes, and listeners stay
-- under their numbers.
structure Silent (select : Entry → Option α) (p q : Poller) : Prop where
  logged : q.logged select = p.logged select
  numbered : p.subscriptions.registry.Numbered → q.subscriptions.registry.Numbered

namespace Silent

theorem refl (select : Entry → Option α) (p : Poller) : Silent select p p := ⟨rfl, id⟩

theorem trans (hpq : Silent select p q) (hqr : Silent select q r) : Silent select p r :=
  ⟨hqr.logged.trans hpq.logged, hqr.numbered ∘ hpq.numbered⟩

theorem foldl {β : Type} {f : Poller → β → Poller} (hf : ∀ p b, Silent select p (f p b))
    (items : List β) (p : Poller) : Silent select p (items.foldl f p) := by
  induction items generalizing p with
  | nil => exact refl select p
  | cons b items ih => exact (hf p b).trans (ih (f p b))

end Silent

theorem silent_record {e : Entry} (he : select e = none) (p : Poller) :
    Silent select p (p.record e) :=
  ⟨by simp [logged_record, he], id⟩

theorem silent_stopTimer (select : Entry → Option α) (p : Poller) :
    Silent select p p.stopTimer := by
  unfold stopTimer
  cases p.session.timer <;> exact ⟨rfl, id⟩

theorem silent_subscribe (select : Entry → Option α) (p : Poller) (l : Listener) :
    Silent select p (p.subscribe l) :=
  ⟨rfl, (p.subscriptions.later_subscribe l.tag l).numbered⟩

theorem silent_unsubscribe (select : Entry → Option α) (p : Poller) (tag : String) :
    Silent select p (p.unsubscribe tag) :=
  ⟨rfl, (p.subscriptions.later_cancel tag).numbered⟩

theorem silent_detach (select : Entry → Option α) (p : Poller) (tag : String) :
    Silent select p (p.detach tag) :=
  ⟨rfl, id⟩

theorem silent_watch (select : Entry → Option α) (p : Poller) (tag : String) :
    Silent select p (p.watch tag) :=
  ⟨rfl, id⟩

theorem silent_elapse (select : Entry → Option α) (p : Poller) (time : Nat) :
    Silent select p { p with now := time } :=
  ⟨rfl, id⟩

theorem silent_close (select : Entry → Option α) (p : Poller) : Silent select p p.close :=
  (silent_stopTimer select p).trans ⟨rfl, id⟩

theorem silent_commit (select : Entry → Option α) (p : Poller) (generation : Nat) (task : Int)
    (result : Except Failure Status) :
    Silent select p (p.commit generation task result).1 := by
  unfold commit
  split
  · exact .refl select p
  · exact (silent_stopTimer select p).trans ⟨rfl, id⟩

theorem silent_tick {t : Timer} (ht : select (.fetched t.task) = none) (source : Source)
    (p : Poller) : Silent select p (p.tick source t) := by
  unfold tick
  split
  · refine Silent.trans ?_ (silent_record ht _)
    exact ⟨rfl, id⟩
  · exact ⟨rfl, id⟩

theorem silent_look (ho : Overlooks select) (isOver : Bool) (p : Poller) (w : Watcher) :
    Silent select p (p.look isOver w) := by
  unfold look
  split <;> split
  · exact silent_record (ho.closed _) p
  · exact .refl select p
  · exact (silent_record (ho.seen _ _) p).trans (silent_record (ho.closed _) _)
  · exact silent_record (ho.seen _ _) p

theorem silent_settle (ho : Overlooks select) (p : Poller) : Silent select p p.settle :=
  (Silent.foldl (silent_look ho (!p.isOpen && p.flights.isEmpty)) p.watchers p).trans ⟨rfl, id⟩

section Ignores

variable (hi : Ignores select)

include hi

theorem silent_publish (p : Poller) (s : State) : Silent select p (p.publish s) :=
  (silent_record (hi.published s) p).trans ⟨rfl, id⟩

theorem silent_start (p : Poller) (task : Int) : Silent select p (p.start task) := by
  unfold start
  refine Silent.trans ?_ (silent_publish hi _ _)
  exact (silent_stopTimer select p).trans ⟨rfl, id⟩

theorem silent_reset (p : Poller) : Silent select p p.reset := by
  unfold reset
  refine Silent.trans ?_ (silent_publish hi _ _)
  exact (silent_stopTimer select p).trans ⟨rfl, id⟩

theorem silent_perform (p : Poller) (c : Command) : Silent select p (p.perform c) := by
  cases c with
  | start task => exact silent_start hi p task
  | reset => exact silent_reset hi p
  | unsubscribe tag => exact silent_unsubscribe select p tag
  | observe => exact silent_record (hi.observed _ _ _) p

end Ignores

end Poller

end BotConsole.Poll
