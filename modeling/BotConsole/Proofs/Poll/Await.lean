import BotConsole.Proofs.Poll.Clock

namespace BotConsole.Poll

namespace Poller

variable {p q : Poller} {source : Source} {time : Nat}

-- What one who waits for the end of a session sees on looking at the channel; none as long as
-- there is reason to wait on.
def ending? (p : Poller) : Option State :=
  if p.published != .running then some p.published else none

theorem ending?_eq_some_iff {s : State} :
    p.ending? = some s ↔ s ≠ .running ∧ p.published = s := by
  unfold ending?
  split
  · rename_i hne
    simp only [bne_iff_ne, ne_eq] at hne
    simp only [Option.some.injEq]
    exact ⟨fun h => ⟨h ▸ hne, h⟩, And.right⟩
  · rename_i heq
    simp only [bne_iff_ne, ne_eq, not_not] at heq
    simp only [heq, reduceCtorEq, false_iff, not_and]
    exact fun hne h => hne h.symm

structure Awaited (source : Source) (p : Poller) (time : Nat) (q : Poller) (s? : Option State) :
    Prop where
  passes : Passes source p q
  settled : q.Settled
  ending : s? = q.ending?
  expired : s? = none → q.now = time

def settleNow (source : Source) (p : Poller) : Poller :=
  (p.advance source p.now (p.fuel p.now)).settle

theorem Passes.settleNow (source : Source) (hp : p.Steady) :
    Passes source p (p.settleNow source) ∧ (p.settleNow source).now = p.now ∧
      (p.settleNow source).Settled := by
  obtain ⟨hpass, hle, hidle⟩ := Passes.advance_fuel source hp (Nat.le_refl p.now)
  have ha := agree_settle (p.advance source p.now (p.fuel p.now))
  have hnow : (p.settleNow source).now = p.now := ha.now.trans (Nat.le_antisymm hle hpass.now_le)
  refine ⟨hpass.settle, hnow, ?_⟩
  unfold Settled
  rw [hnow]
  exact hidle.agree ha

theorem awaitUntil_succ (source : Source) (p : Poller) (time fuel : Nat) :
    p.awaitUntil source time (fuel + 1) =
      if (p.settleNow source).published != .running then
        (p.settleNow source, some (p.settleNow source).published)
      else match (p.settleNow source).next? with
        | none => ({ p.settleNow source with now := time }, none)
        | some (due, _) =>
          if time < due then ({ p.settleNow source with now := time }, none)
          else awaitUntil source time fuel { p.settleNow source with now := due } :=
  rfl

theorem awaited_awaitUntil (source : Source) (fuel : Nat) (hp : p.Steady) (hle : p.now ≤ time)
    (hf : time < p.now + fuel) :
    Awaited source p time (p.awaitUntil source time fuel).1 (p.awaitUntil source time fuel).2 := by
  -- the time goes up with every look, so the fuel does not run out before the time does
  induction fuel generalizing p with
  | zero => omega
  | succ fuel ih =>
    obtain ⟨hpass, hnow, hsettled⟩ := Passes.settleNow source hp
    have hover : ∀ hidle : (p.settleNow source).IdleUntil (time + 1),
        (p.settleNow source).published = .running →
        Awaited source p time { p.settleNow source with now := time } none := by
      intro hidle hrunning
      refine ⟨hpass.elapse (hnow ▸ hle) (hidle.mono (Nat.le_succ _)),
        ⟨hidle.timers, hidle.flights⟩, ?_, fun _ => rfl⟩
      simp [ending?, hrunning]
    rw [awaitUntil_succ]
    by_cases hend : ((p.settleNow source).published != .running) = true
    · rw [if_pos hend]
      exact ⟨hpass, hsettled, by simp only [ending?, if_pos hend], nofun⟩
    · rw [if_neg hend]
      have hrunning : (p.settleNow source).published = .running := by simpa using hend
      rcases hn : (p.settleNow source).next? with _ | ⟨due, event⟩
      · exact hover (idleUntil_of_next?_eq_none hn _) hrunning
      · dsimp only
        by_cases hlt : time < due
        · rw [if_pos hlt]
          exact hover ((idleUntil_next? hn).mono hlt) hrunning
        · rw [if_neg hlt]
          have hdue : p.now < due := by
            have hhas := next?_mem hn
            cases event with
            | tick t => exact hnow ▸ hhas.2 ▸ hsettled.timers t hhas.1
            | landing place f =>
              exact hnow ▸ hhas.2 ▸ hsettled.flights f (List.mem_of_getElem? hhas.1)
          have hstep : Passes source p { p.settleNow source with now := due } :=
            hpass.elapse (hnow ▸ Nat.le_of_lt hdue) (idleUntil_next? hn)
          have hlater : time < due + fuel := by omega
          have hrest := ih (hstep.steady hp) (Nat.le_of_not_lt hlt) hlater
          exact ⟨hstep.trans hrest.passes, hrest.settled, hrest.ending, hrest.expired⟩

-- Waiting returns by the time set for it, and not before there is something to return.
theorem awaited_await (source : Source) (hp : p.Steady) (limit : Nat) :
    Awaited source p (p.now + limit) (p.await source limit).1 (p.await source limit).2 := by
  refine awaited_awaitUntil source _ hp (Nat.le_add_right _ _) ?_
  unfold fuel
  omega

end Poller

end BotConsole.Poll
