import BotConsole.Event.Registry
import Mathlib.Data.List.Pairwise

namespace BotConsole.Event

namespace Registry

variable {L : Type} {r r' r'' : Registry L}

-- Numbers go up with the order of the subscriptions, and the next one is above them all.
structure Numbered (r : Registry L) : Prop where
  ascending : (r.entries.map Prod.fst).Pairwise (· < ·)
  lt_next : ∀ entry ∈ r.entries, entry.1 < r.next

theorem numbered_empty : (empty : Registry L).Numbered :=
  ⟨.nil, by simp [empty]⟩

theorem Numbered.subscribe (hr : r.Numbered) (listener : L) :
    (r.subscribe listener).1.Numbered := by
  constructor
  · simp only [Registry.subscribe, List.map_append, List.map_cons, List.map_nil]
    rw [List.pairwise_append]
    refine ⟨hr.ascending, List.pairwise_singleton _ _, ?_⟩
    intro number hn next hnext
    obtain ⟨entry, he, rfl⟩ := List.mem_map.mp hn
    obtain rfl := List.mem_singleton.mp hnext
    exact hr.lt_next entry he
  · intro entry he
    simp only [Registry.subscribe, List.mem_append, List.mem_singleton] at he ⊢
    rcases he with he | rfl
    · exact Nat.lt_succ_of_lt (hr.lt_next entry he)
    · exact Nat.lt_succ_self _

theorem Numbered.cancel (hr : r.Numbered) (number : Nat) : (r.cancel number).Numbered where
  ascending := hr.ascending.sublist (List.filter_sublist.map Prod.fst)
  lt_next := fun entry he => hr.lt_next entry (List.mem_filter.mp he).1

theorem Numbered.nodup (hr : r.Numbered) : (r.entries.map Prod.fst).Nodup :=
  hr.ascending.imp Nat.ne_of_lt

-- A registry at a later time: listeners may be gone, and new ones have new numbers.
structure Later (r r' : Registry L) : Prop where
  next_le : r.next ≤ r'.next
  entries : ∀ entry ∈ r'.entries, entry ∈ r.entries ∨ r.next ≤ entry.1
  numbered : r.Numbered → r'.Numbered

namespace Later

theorem refl (r : Registry L) : Later r r := ⟨Nat.le_refl _, fun _ => .inl, id⟩

theorem trans (h : Later r r') (h' : Later r' r'') : Later r r'' where
  next_le := Nat.le_trans h.next_le h'.next_le
  entries := by
    intro entry he
    rcases h'.entries entry he with he | hle
    · exact h.entries entry he
    · exact .inr (Nat.le_trans h.next_le hle)
  numbered := h'.numbered ∘ h.numbered

theorem subscribe (r : Registry L) (listener : L) : Later r (r.subscribe listener).1 := by
  refine ⟨Nat.le_succ _, fun entry he => ?_, fun hr => hr.subscribe listener⟩
  rcases List.mem_append.mp he with he | he
  · exact .inl he
  · rw [List.mem_singleton.mp he]
    exact .inr (Nat.le_refl _)

theorem cancel (r : Registry L) (number : Nat) : Later r (r.cancel number) :=
  ⟨Nat.le_refl _, fun _ he => .inl (List.mem_filter.mp he).1, fun hr => hr.cancel number⟩

end Later

end Registry

namespace Subscriptions

variable {L : Type}

theorem later_cancel (s : Subscriptions L) (tag : String) :
    s.registry.Later (s.cancel tag).registry := by
  unfold cancel
  split
  · exact .refl _
  · exact .cancel _ _

theorem later_subscribe (s : Subscriptions L) (tag : String) (listener : L) :
    s.registry.Later (s.subscribe tag listener).registry := by
  unfold subscribe
  cases s.held.find? tag with
  | none => exact .subscribe _ _
  | some number => exact (Registry.Later.subscribe _ _).trans (.cancel _ _)

end Subscriptions

end BotConsole.Event
