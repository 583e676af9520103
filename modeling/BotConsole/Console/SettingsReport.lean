import BotConsole.Console.Report
import BotConsole.Project
import BotConsole.Settings.Effective
import BotConsole.Settings.Warning

namespace BotConsole.Console.SettingsReport

def quote (s : String) : String :=
  "\"" ++ s ++ "\""

-- The settings by their sections. Of a token only its presence is shown.
def fileLines (s : Settings) : List String :=
  let token := if s.backend.token.isSome then ["  token = \"********\""] else []
  ["[backend]", "  base_url = " ++ quote s.backend.baseUrl] ++ token ++
    ["  task_status_path = " ++ quote s.backend.taskStatusPath,
      "  timeout_secs = " ++ toString s.backend.timeoutSecs.toNat, "",
      "[poller]", "  interval_ms = " ++ toString s.polling.intervalMs.toNat, "",
      "[ui]", "  locale = " ++ quote s.display.locale, "",
      "[logging]", "  level = " ++ quote s.logging.level,
      "  json = " ++ toString s.logging.json, "  file = " ++ toString s.logging.file, ""]

def effectiveLines (l : Settings.Layers) : List String :=
  ["Effective values (with env/CLI overrides):", "  base_url = " ++ quote l.effectiveBaseUrl,
    "  token = " ++ (if l.effectiveToken.isSome then "set" else "unset"),
    "  poll_interval_ms = " ++ toString l.effectiveInterval,
    "  locale = " ++ quote l.effectiveLocale.code, ""]

def summary (file : Place) (isSaved : Bool) (l : Settings.Layers) : Report :=
  let head :=
    if isSaved then ["Config file: " ++ file.toText]
    else ["No botdeck.toml found at " ++ file.toText, "Using default configuration:"]
  let foot :=
    if isSaved then []
    else ["Run 'botdeck config init' to create a botdeck.toml file.", ""]
  .ofLines (["", "Botdeck Configuration", "=====================", ""] ++ head ++ [""] ++
    fileLines l.file ++ effectiveLines l ++ foot)

def validation (isSaved : Bool) (s : Settings) : Report :=
  let head := ["", "Validating configuration...", ""]
  if !isSaved then .ofLines (head ++ ["No botdeck.toml found. Using defaults (valid)."])
  else match s.warnings with
    | [] => .ofLines (head ++ ["Configuration is valid.", ""])
    | warnings =>
      .ofLines (head ++ "Configuration warnings:" :: warnings.map ("  - " ++ ·.message) ++ [""])

def creation (disk : Disk) (p : Project) : Report × Disk :=
  let file := p.settingsFile
  if !disk.isVacant file then
    (.ofLines ["botdeck.toml already exists at " ++ file.toText,
      "Delete it first if you want to recreate it."], disk)
  else
    let made :=
      if disk.isVacant p.configFolder then disk.makeFolders? p.configFolder else some disk
    match made with
    | none => (.failure "Not a directory (os error 20)", disk)
    | some disk =>
      match Project.save disk [] file.toText {} with
      | .error failure => (.failure failure.message, disk)
      | .ok disk =>
        (.ofLines ["Created botdeck.toml at " ++ file.toText, "", "You can now customize:",
          "  - [backend] base_url, token, task_status_path", "  - [poller] interval_ms",
          "  - [ui] locale and [logging] level", ""], disk)

end BotConsole.Console.SettingsReport
