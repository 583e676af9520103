namespace BotConsole.Event

-- The listeners of a bus under their numbers, in the order they came. A number is given
-- once and never again.
structure Registry (L : Type) where
  next : Nat
  entries : List (Nat × L)

namespace Registry

variable {L : Type}

def empty : Registry L := ⟨0, []⟩

instance : Inhabited (Registry L) := ⟨empty⟩

def subscribe (r : Registry L) (listener : L) : Registry L × Nat :=
  (⟨r.next + 1, r.entries ++ [(r.next, listener)]⟩, r.next)

def cancel (r : Registry L) (number : Nat) : Registry L :=
  { r with entries := r.entries.filter (·.1 != number) }

def count (r : Registry L) : Nat :=
  r.entries.length

end Registry

abbrev Held := List (String × Nat)

namespace Held

def find? (held : Held) (tag : String) : Option Nat :=
  held.lookup tag

def release (held : Held) (tag : String) : Held :=
  held.filter (·.1 != tag)

def hold (held : Held) (tag : String) (number : Nat) : Held :=
  (tag, number) :: held.release tag

end Held

structure Subscriptions (L : Type) where
  registry : Registry L
  held : Held

namespace Subscriptions

variable {L : Type}

def empty : Subscriptions L := ⟨.empty, []⟩

instance : Inhabited (Subscriptions L) := ⟨empty⟩

def cancel (s : Subscriptions L) (tag : String) : Subscriptions L :=
  match s.held.find? tag with
  | none => s
  | some number => ⟨s.registry.cancel number, s.held.release tag⟩

-- A subscription held under the name before is given up afterwards.
def subscribe (s : Subscriptions L) (tag : String) (listener : L) : Subscriptions L :=
  let older := s.held.find? tag
  let (registry, number) := s.registry.subscribe listener
  let registry := match older with
    | none => registry
    | some n => registry.cancel n
  ⟨registry, s.held.hold tag number⟩

-- Lets go of the subscription held under a name; its listener stays for good.
def detach (s : Subscriptions L) (tag : String) : Subscriptions L :=
  { s with held := s.held.release tag }

end Subscriptions

end BotConsole.Event
