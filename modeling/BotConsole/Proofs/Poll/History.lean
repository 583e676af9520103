import BotConsole.Poll.Poller
import Mathlib.Data.List.Induction

namespace BotConsole.Poll

open BotConsole.Task (Failure Status)

-- What an observer notes of a run. Sessions are numbered in the order they are started.
inductive Fact where
  | started (task : Int)
  | reset
  | closed
  -- A fetch of a session has come back.
  | landed (session : Nat) (result : Except Failure Status)
  -- The listeners are told an outcome, while the poller shows this state and this error.
  | emitted (session : Nat) (outcome : Outcome) (state : State) (error : Option String)
  | called (session : Nat) (number : Nat) (interest : Interest) (outcome : Outcome)

abbrev History := List Fact

namespace Fact

def task? : Fact → Option Int
  | .started task => some task
  | _ => none

-- The facts that end whatever session there was.
def isTurn : Fact → Bool
  | .started _ | .reset | .closed => true
  | _ => false

def result? (session : Nat) : Fact → Option (Except Failure Status)
  | .landed s result => if s = session then some result else none
  | _ => none

theorem task?_of_isTurn {f : Fact} (hf : f.isTurn = false) : f.task? = none := by
  cases f with
  | started task => cases hf
  | _ => rfl

def ofCommand? : Command → Option Fact
  | .start task => some (.started task)
  | .reset => some .reset
  | _ => none

end Fact

namespace History

def tasks (h : History) : List Int :=
  h.filterMap Fact.task?

def turns (h : History) : Nat :=
  h.countP Fact.isTurn

-- The session that was started last, unless it was reset or closed since.
def current? (h : History) : Option Nat :=
  match (h.filter Fact.isTurn).getLast? with
  | some (.started _) => some ((tasks h).length - 1)
  | _ => none

def results (session : Nat) (h : History) : List (Except Failure Status) :=
  h.filterMap (Fact.result? session)

def verdict? (session : Nat) (h : History) : Option Verdict :=
  (results session h).findSome? Verdict.ofResult?

variable {h : History} {f : Fact} {session : Nat}

@[simp] theorem tasks_append (h : History) (f : Fact) :
    tasks (h ++ [f]) = tasks h ++ f.task?.toList := by
  cases f <;> simp [tasks, Fact.task?]

@[simp] theorem turns_append (h : History) (f : Fact) :
    turns (h ++ [f]) = turns h + if f.isTurn then 1 else 0 := by
  simp [turns, List.countP_append, List.countP_singleton]

@[simp] theorem current?_append_started (h : History) (task : Int) :
    current? (h ++ [.started task]) = some (tasks h).length := by
  simp [current?, Fact.isTurn, Fact.task?]

@[simp] theorem current?_append_reset (h : History) : current? (h ++ [.reset]) = none := by
  simp [current?, Fact.isTurn]

@[simp] theorem current?_append_closed (h : History) : current? (h ++ [.closed]) = none := by
  simp [current?, Fact.isTurn]

theorem current?_append (hf : f.isTurn = false) : current? (h ++ [f]) = current? h := by
  simp [current?, hf, Fact.task?_of_isTurn hf]

@[simp] theorem verdict?_append (session : Nat) (h : History) (f : Fact) :
    verdict? session (h ++ [f]) =
      (verdict? session h).or ((f.result? session).bind Verdict.ofResult?) := by
  cases hr : f.result? session <;> simp [verdict?, results, hr, List.findSome?_append]

theorem tasks_getElem?_append {task : Int} (after : History)
    (ht : (tasks h)[session]? = some task) : (tasks (h ++ after))[session]? = some task := by
  have hlt := (List.getElem?_eq_some_iff.mp ht).1
  simp only [tasks, List.filterMap_append] at ht hlt ⊢
  rw [List.getElem?_append_left hlt, ht]

theorem length_of_current? (hc : current? h = some session) :
    (tasks h).length = session + 1 := by
  induction h using List.reverseRecOn with
  | nil => simp [current?] at hc
  | append_singleton h f ih =>
    cases f with
    | started task =>
      simp only [current?_append_started, Option.some.injEq] at hc
      simp [Fact.task?, hc]
    | reset => simp at hc
    | closed => simp at hc
    | landed _ _ | emitted _ _ _ _ | called _ _ _ _ =>
      rw [current?_append rfl] at hc
      simpa [Fact.task?] using ih hc

end History

end BotConsole.Poll
