import BotConsole.Task.Status

namespace BotConsole.Poll

open BotConsole.Task (Failure Status)

inductive State where
  | waiting
  | running
  | success
  | error
  deriving DecidableEq, Inhabited, Repr

namespace State

def isTerminal : State → Bool
  | .success | .error => true
  | .waiting | .running => false

def name : State → String
  | .waiting => "WAIT_INPUT"
  | .running => "RUNNING"
  | .success => "SUCCESS"
  | .error => "ERROR"

def tag : State → String
  | .waiting => "WaitInput"
  | .running => "Running"
  | .success => "Success"
  | .error => "Error"

end State

inductive Verdict where
  | succeeded
  | failed (failure : Failure)
  deriving DecidableEq

def Verdict.ofResult? : Except Failure Status → Option Verdict
  | .error f => some (.failed f)
  | .ok s =>
    if !s.runtime.done then none
    else match s.runtime.exceptionMessage with
      | some m => some (.failed (.task m))
      | none => some .succeeded

structure Outcome where
  task : Int
  verdict : Verdict
  deriving DecidableEq

-- The task that is followed. Every start and every reset begins a new generation; the timer
-- is the number of the one that fetches for this session.
structure Session where
  state : State
  error : Option String
  task : Option Int
  generation : Nat
  succeeded : Bool
  timer : Option Nat
  deriving DecidableEq, Inhabited

namespace Session

def initial : Session := ⟨.waiting, none, none, 0, false, none⟩

def start (s : Session) (task : Int) (timer : Nat) : Session :=
  ⟨.running, none, some task, s.generation + 1, false, some timer⟩

def reset (s : Session) : Session :=
  ⟨.waiting, none, none, s.generation + 1, false, none⟩

-- Results that are still to come find another generation; all else stays as it was.
def abandon (s : Session) : Session :=
  { s with generation := s.generation + 1, timer := none }

def isCurrent (s : Session) (generation : Nat) : Bool :=
  s.generation == generation && s.state == .running

-- Only the first verdict on the current generation counts.
def commit (s : Session) (generation : Nat) (task : Int) (result : Except Failure Status) :
    Session × Option Outcome :=
  if !s.isCurrent generation then (s, none)
  else match Verdict.ofResult? result with
    | none => (s, none)
    | some .succeeded =>
      if s.succeeded then (s, none)
      else ({ s with state := .success, succeeded := true, timer := none },
        some ⟨task, .succeeded⟩)
    | some (.failed f) =>
      ({ s with state := .error, error := some f.message, timer := none },
        some ⟨task, .failed f⟩)

end Session

end BotConsole.Poll
