import BotConsole.Text.Blank

namespace BotConsole.Task

-- Why a task did not succeed: its status could not be fetched, or the task itself failed.
inductive Failure where
  | transport (message : String)
  | task (message : String)
  deriving DecidableEq, Inhabited

namespace Failure

def unknown : String := "Unknown error"

-- A failed fetch; a blank message gives way to a general one.
def ofTransport (message : String) : Failure :=
  .transport (if Text.allBlank message then unknown else message)

def message : Failure → String
  | .transport m => m
  | .task m => m

end Failure

end BotConsole.Task
