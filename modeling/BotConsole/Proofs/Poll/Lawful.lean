import BotConsole.Proofs.Poll.History
import Mathlib.Data.List.Nodup

namespace BotConsole.Poll

open History

def Verdict.leaves : Verdict → State × Option String
  | .succeeded => (.success, none)
  | .failed f => (.error, some f.message)

def Fact.ended? : Fact → Option Nat
  | .emitted session _ _ _ => some session
  | _ => none

def Fact.call? : Fact → Option (Nat × Nat)
  | .called session number _ _ => some (session, number)
  | _ => none

namespace History

def ended (h : History) : List Nat :=
  h.filterMap Fact.ended?

def calls (h : History) : List (Nat × Nat) :=
  h.filterMap Fact.call?

-- When a fact may follow others. The end of a session is told while the session is current, and
-- once; a listener is called for an end that was told before, and once.
def Allows (h : History) : Fact → Prop
  | .emitted session o state error =>
    current? h = some session ∧ (tasks h)[session]? = some o.task ∧
      verdict? session h = some o.verdict ∧ (state, error) = o.verdict.leaves ∧
      session ∉ ended h
  | .called session number interest o =>
    interest.covers o.verdict = true ∧
      (∃ state error, Fact.emitted session o state error ∈ h) ∧ (session, number) ∉ calls h
  | _ => True

def Lawful (h : History) : Prop :=
  ∀ before f after, h = before ++ f :: after → Allows before f

variable {h : History} {f : Fact} {session : Nat}

@[simp] theorem ended_append (h : History) (f : Fact) :
    ended (h ++ [f]) = ended h ++ f.ended?.toList := by
  cases f <;> simp [ended, Fact.ended?]

@[simp] theorem calls_append (h : History) (f : Fact) :
    calls (h ++ [f]) = calls h ++ f.call?.toList := by
  cases f <;> simp [calls, Fact.call?]

theorem lawful_nil : Lawful [] := by
  intro before f after hh
  simp at hh

theorem lawful_append_iff : Lawful (h ++ [f]) ↔ Lawful h ∧ Allows h f := by
  constructor
  · intro hl
    refine ⟨fun before g after hh => hl before g (after ++ [f]) (by simp [hh]), ?_⟩
    exact hl h f [] rfl
  · rintro ⟨hl, hf⟩ before g after hh
    rcases List.eq_nil_or_concat after with rfl | ⟨after, last, rfl⟩
    · obtain ⟨rfl, hfg⟩ := List.append_inj' hh rfl
      obtain rfl := (List.cons.inj hfg).1
      exact hf
    · rw [List.concat_eq_append, ← List.cons_append, ← List.append_assoc] at hh
      exact hl before g after (List.append_inj' hh rfl).1

-- Whose end was told has a verdict, which is the one that was told.
theorem Lawful.verdict?_of_ended (hl : Lawful h) (hs : session ∈ ended h) :
    (verdict? session h).isSome = true ∧ session < (tasks h).length := by
  induction h using List.reverseRecOn with
  | nil => simp [ended] at hs
  | append_singleton h f ih =>
    obtain ⟨hh, hf⟩ := lawful_append_iff.mp hl
    rw [ended_append, List.mem_append] at hs
    rw [verdict?_append, tasks_append, List.length_append]
    rcases hs with hs | hs
    · obtain ⟨hv, hlen⟩ := ih hh hs
      exact ⟨by simp [Option.isSome_or, hv], by omega⟩
    · cases f with
      | emitted k o state error =>
        obtain rfl : session = k := by simpa [Fact.ended?] using hs
        obtain ⟨-, htask, hv, -⟩ := hf
        exact ⟨by simp [hv], by have := (List.getElem?_eq_some_iff.mp htask).1; omega⟩
      | started _ | reset | closed | landed _ _ | called _ _ _ _ => simp [Fact.ended?] at hs

theorem Lawful.ended_ascending (hl : Lawful h) : (ended h).Pairwise (· < ·) := by
  induction h using List.reverseRecOn with
  | nil => exact .nil
  | append_singleton h f ih =>
    obtain ⟨hh, hf⟩ := lawful_append_iff.mp hl
    rw [ended_append]
    cases f with
    | emitted session o state error =>
      obtain ⟨hc, -, -, -, hnew⟩ := hf
      refine List.pairwise_append.mpr ⟨ih hh, List.pairwise_singleton _ _, ?_⟩
      intro earlier he last hlast
      obtain rfl : last = session := by simpa [Fact.ended?] using hlast
      have hlt := (hh.verdict?_of_ended he).2
      rw [length_of_current? hc] at hlt
      have hne : earlier ≠ last := fun heq => hnew (heq ▸ he)
      omega
    | started _ | reset | closed | landed _ _ | called _ _ _ _ => simpa [Fact.ended?] using ih hh

theorem Lawful.calls_nodup (hl : Lawful h) : (calls h).Nodup := by
  induction h using List.reverseRecOn with
  | nil => exact .nil
  | append_singleton h f ih =>
    obtain ⟨hh, hf⟩ := lawful_append_iff.mp hl
    rw [calls_append]
    cases f with
    | called session number interest o =>
      obtain ⟨-, -, hnew⟩ := hf
      refine List.nodup_append.mpr ⟨ih hh, by simp [Fact.call?], ?_⟩
      intro earlier he last hlast heq
      obtain rfl : last = (session, number) := by simpa [Fact.call?] using hlast
      exact hnew (heq ▸ he)
    | started _ | reset | closed | landed _ _ | emitted _ _ _ _ => simpa [Fact.call?] using ih hh

theorem Lawful.ended_of_call (hl : Lawful h) {number : Nat} (hc : (session, number) ∈ calls h) :
    session ∈ ended h := by
  induction h using List.reverseRecOn with
  | nil => simp [calls] at hc
  | append_singleton h f ih =>
    obtain ⟨hh, hf⟩ := lawful_append_iff.mp hl
    rw [calls_append, List.mem_append] at hc
    rw [ended_append, List.mem_append]
    rcases hc with hc | hc
    · exact .inl (ih hh hc)
    · cases f with
      | called k n interest o =>
        obtain ⟨-, ⟨state, error, he⟩, -⟩ := hf
        obtain ⟨rfl, -⟩ : session = k ∧ number = n := by simpa [Fact.call?] using hc
        exact .inl (List.mem_filterMap.mpr ⟨_, he, rfl⟩)
      | started _ | reset | closed | landed _ _ | emitted _ _ _ _ => simp [Fact.call?] at hc

end History

end BotConsole.Poll
