namespace BotConsole.Console

inductive Ending where
  | done
  | failed (message : String)
  | misused
  deriving DecidableEq, Inhabited

def Ending.exitCode : Ending → Nat
  | .done => 0
  | .failed _ => 1
  | .misused => 2

structure Report where
  output : String
  notices : List String := []
  ending : Ending := .done
  deriving DecidableEq, Inhabited

namespace Report

def unlines (lines : List String) : String :=
  String.join (lines.map (· ++ "\n"))

def ofLines (lines : List String) : Report :=
  { output := unlines lines }

def failure (message : String) : Report :=
  { output := "", ending := .failed message }

end Report

end BotConsole.Console
