import BotConsole.Log.Filter
import BotConsole.Settings.Basic

namespace BotConsole

abbrev Environment := String → Option String

namespace Settings

-- Settings in three layers: the file, above it the environment, and on top of both what the
-- command line says.
structure Layers where
  file : Settings
  environment : Environment
  baseUrl : Option String := none
  interval : Option UInt64 := none
  verbose : Bool := false

namespace Layers

def variableNames : List String :=
  ["BOTDECK_BASE_URL", "BOTDECK_TOKEN", "BOTDECK_POLL_INTERVAL_MS", "BOTDECK_LOCALE",
    "BOTDECK_LOG", "RUST_LOG"]

def effectiveBaseUrl (l : Layers) : String :=
  let url := l.baseUrl.or (l.environment "BOTDECK_BASE_URL")
  String.ofList (Task.Client.trimSlashes (url.getD l.file.backend.baseUrl).toList)

-- An empty token in the environment counts as none.
def effectiveToken (l : Layers) : Option String :=
  ((l.environment "BOTDECK_TOKEN").filter (!·.isEmpty)).or l.file.backend.token

def environmentInterval (l : Layers) : Option UInt64 :=
  (l.environment "BOTDECK_POLL_INTERVAL_MS").bind fun text =>
    (Text.unsigned64? text.toList).map UInt64.ofNat

def effectiveInterval (l : Layers) : Nat :=
  max ((l.interval.or l.environmentInterval).getD l.file.polling.intervalMs).toNat 1

def effectiveTimeout (l : Layers) : Nat :=
  max l.file.backend.timeoutSecs.toNat 1

-- Codes that mean no locale are passed over.
def effectiveLocale (l : Layers) : Locale :=
  (((l.environment "BOTDECK_LOCALE").bind Locale.ofCode?).or
    (Locale.ofCode? l.file.display.locale)).getD .english

def client (l : Layers) : Task.Client :=
  .new l.effectiveBaseUrl l.file.backend.taskStatusPath l.effectiveToken l.effectiveTimeout

-- The filter used where the settings hold none that can be read.
def fallbackFilter : Log.Filter :=
  [⟨none, .info⟩]

-- The log filter: the first of two variables that holds one, then the level of the settings,
-- which a request for more detail replaces.
def logFilter (l : Layers) : Log.Filter :=
  let ofVariable (name : String) := (l.environment name).bind Log.Filter.ofText?
  let level := if l.verbose then Log.Level.debug.name else l.file.logging.level
  (((ofVariable "BOTDECK_LOG").or (ofVariable "RUST_LOG")).or
    (Log.Filter.ofText? level)).getD fallbackFilter

end Layers

end Settings

end BotConsole
