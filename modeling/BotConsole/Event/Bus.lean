import BotConsole.Event.Registry

namespace BotConsole.Event

-- What can be done with a bus, by its owner and by a listener that is being called. What a
-- listener does may depend on the event and on how many calls of listeners came before.
inductive Action (ε : Type) where
  | emit (event : ε)
  | subscribe (tag : String) (react : Nat → ε → List (Action ε))
  | unsubscribe (tag : String)
  | detach (tag : String)
  | count

structure Listener (ε : Type) where
  tag : String
  react : Nat → ε → List (Action ε)

inductive Report (ε : Type) where
  | call (emission : Nat) (listener : Nat) (tag : String) (event : ε)
  | count (listeners : Option Nat)

-- A bus with the subscriptions that its owner holds. Once it is closed, subscriptions and
-- emissions have no effect.
structure Bus (ε : Type) where
  subscriptions : Subscriptions (Listener ε)
  isOpen : Bool
  emissions : Nat
  calls : Nat
  reports : List (Report ε)

inductive Pending (ε : Type) where
  | action (a : Action ε)
  | call (emission : Nat) (listener : Nat) (l : Listener ε) (event : ε)

namespace Bus

variable {ε : Type}

def empty : Bus ε := ⟨.empty, true, 0, 0, []⟩

instance : Inhabited (Bus ε) := ⟨empty⟩

def count (b : Bus ε) : Option Nat :=
  if b.isOpen then some b.subscriptions.registry.count else none

def callsFor (b : Bus ε) (event : ε) : List (Pending ε) :=
  b.subscriptions.registry.entries.map fun (number, l) => .call b.emissions number l event

-- One step. An emission is put in front of everything else that is left to do, and so is
-- what a listener does when it is called: both are completed before anything that waits.
def step (b : Bus ε) : Pending ε → Bus ε × List (Pending ε)
  | .action (.emit event) =>
    if b.isOpen then ({ b with emissions := b.emissions + 1 }, b.callsFor event) else (b, [])
  | .action (.subscribe tag react) =>
    if b.isOpen then
      ({ b with subscriptions := b.subscriptions.subscribe tag ⟨tag, react⟩ }, [])
    else (b, [])
  | .action (.unsubscribe tag) => ({ b with subscriptions := b.subscriptions.cancel tag }, [])
  | .action (.detach tag) => ({ b with subscriptions := b.subscriptions.detach tag }, [])
  | .action .count => ({ b with reports := b.reports ++ [.count b.count] }, [])
  | .call emission number l event =>
    ({ b with
        calls := b.calls + 1
        reports := b.reports ++ [.call emission number l.tag event] },
      (l.react b.calls event).map .action)

def run? : Nat → Bus ε → List (Pending ε) → Option (Bus ε)
  | _, b, [] => some b
  | 0, _, _ :: _ => none
  | fuel + 1, b, p :: rest =>
    let (b, first) := b.step p
    run? fuel b (first ++ rest)

def perform? (fuel : Nat) (b : Bus ε) (a : Action ε) : Option (Bus ε) :=
  b.run? fuel [.action a]

def close (b : Bus ε) : Bus ε :=
  { b with isOpen := false }

end Bus

end BotConsole.Event
