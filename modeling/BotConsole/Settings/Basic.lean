import BotConsole.Locale
import BotConsole.Task.Client

namespace BotConsole.Settings

structure Backend where
  baseUrl : String := "http://127.0.0.1:5300"
  token : Option String := none
  -- The path of a task's status, with a mark for the number of the task.
  taskStatusPath : String := Task.Client.defaultTemplate
  timeoutSecs : UInt64 := 10
  deriving DecidableEq, Inhabited

structure Polling where
  intervalMs : UInt64 := 1000
  deriving DecidableEq, Inhabited

structure Display where
  -- The code of the locale that is used as long as none has been chosen.
  locale : String := Locale.english.code
  deriving DecidableEq, Inhabited

structure Logging where
  level : String := "info"
  -- Lines for programs instead of lines for people.
  json : Bool := false
  -- A log file beside the lines on standard error.
  file : Bool := false
  deriving DecidableEq, Inhabited

end BotConsole.Settings

namespace BotConsole

structure Settings where
  backend : Settings.Backend := {}
  polling : Settings.Polling := {}
  display : Settings.Display := {}
  logging : Settings.Logging := {}
  deriving DecidableEq, Inhabited

end BotConsole
