import BotConsole.Log.Filter
import BotConsole.Settings.Basic

namespace BotConsole.Settings

-- Something that is likely to be wrong with settings that can be read.
inductive Warning where
  | badBaseUrl (url : String)
  | noTaskMark (path : String)
  | zeroTimeout
  | zeroInterval
  | unknownLocale (code : String)
  | badLogFilter (level : String)
  deriving DecidableEq

namespace Warning

def message : Warning → String
  | .badBaseUrl url => "Invalid base_url '" ++ url ++ "': must start with http:// or https://"
  | .noTaskMark path => "task_status_path '" ++ path ++ "' has no \x7bid\x7d placeholder"
  | .zeroTimeout => "timeout_secs must be greater than 0"
  | .zeroInterval => "poller.interval_ms must be greater than 0"
  | .unknownLocale code =>
    "Unknown locale '" ++ code ++ "'. Valid values: en_US, zh_Hans, zh_Hant, ja_JP"
  | .badLogFilter level => "logging.level '" ++ level ++ "' is not a valid tracing filter"

end Warning

def isWebUrl (url : String) : Bool :=
  "http://".toList.isPrefixOf url.toList || "https://".toList.isPrefixOf url.toList

def warnings (s : Settings) : List Warning :=
  let when (isBad : Bool) (w : Warning) : List Warning := if isBad then [w] else []
  when (!isWebUrl s.backend.baseUrl) (.badBaseUrl s.backend.baseUrl) ++
    when (!Text.occurs Task.Client.mark s.backend.taskStatusPath.toList)
      (.noTaskMark s.backend.taskStatusPath) ++
    when (s.backend.timeoutSecs == 0) .zeroTimeout ++
    when (s.polling.intervalMs == 0) .zeroInterval ++
    when (Locale.ofCode? s.display.locale).isNone (.unknownLocale s.display.locale) ++
    when (Log.Filter.ofText? s.logging.level).isNone (.badLogFilter s.logging.level)

end BotConsole.Settings
