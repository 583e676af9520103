import BotConsole.Console.FormReport
import BotConsole.Console.Invocation
import BotConsole.Console.LanguageReport
import BotConsole.Console.SettingsReport
import BotConsole.Console.Watch
import BotConsole.Version

namespace BotConsole.Console

structure Machine where
  environment : Environment
  disk : Disk
  folder : Place
  server : Server
  -- The number of fetches after which the user interrupts the watching of a task.
  patience : Nat
  -- The milliseconds until the server replies, for each request.
  delay : Nat → Nat := fun _ => 0

namespace Machine

def layers (m : Machine) (p : Project) (i : Invocation) : Settings.Layers where
  file := p.settings
  environment := m.environment
  baseUrl := i.baseUrl
  verbose := i.verbose

def withLogFolder (m : Machine) (p : Project) : Machine :=
  if p.settings.logging.file then { m with disk := (m.disk.makeFolders? p.logFolder).getD m.disk }
  else m

def language (m : Machine) (p : Project) (l : Settings.Layers) : Language :=
  .load (.file (m.disk.slot p.preferenceFile)) l.effectiveLocale

def keep (m : Machine) (p : Project) (l : Language) : Machine :=
  match l.store with
  | .file (.text content) => { m with disk := m.disk.fill p.preferenceFile content }
  | _ => m

def afterRequests (m : Machine) (count : Nat) : Machine :=
  { m with server := fun n => m.server (n + count), delay := fun n => m.delay (n + count) }

def watch (m : Machine) (l : Settings.Layers) (locale : Locale) (task : Int)
    (interval : Option UInt64) : Watch where
  task := task
  client := l.client
  interval := { l with interval := interval }.effectiveInterval
  patience := m.patience
  locale := locale
  delay := m.delay

def perform (m : Machine) (p : Project) (l : Settings.Layers) : Command → Report × Machine
  | .compareVersions a b =>
    (.ofLines [if Version.isNewer a b then "newer" else "not newer"], m)
  | .checkVersion latest =>
    let u := UpdateCheck.forBuild latest
    let line :=
      if u.isAvailable then "Update available: " ++ u.current ++ " -> " ++ u.latest
      else "botdeck " ++ u.current ++ " is up to date (latest: " ++ u.latest ++ ")"
    (.ofLines [line], m)
  | .watchTask task interval =>
    let w := m.watch l (m.language p l).locale task interval
    (w.report m.server, m.afterRequests (w.requests m.server))
  | .showDefaults path => (onSchema path FormReport.defaults, m)
  | .validateValues path valuesPath =>
    (onSchema path fun s =>
      FormReport.onSuccess (FormReport.values m.disk m.folder valuesPath)
        (FormReport.validation (m.language p l).locale s), m)
  | .listVisible path authType => (onSchema path (FormReport.visible authType), m)
  | .listControls path asJson =>
    (onSchema path (FormReport.controls (m.language p l).locale asJson), m)
  | .checkSchema path => (onSchema path FormReport.check, m)
  | .showSettings => (SettingsReport.summary p.settingsFile isSaved l, m)
  | .validateSettings => (SettingsReport.validation isSaved p.settings, m)
  | .createSettings =>
    let (report, disk) := SettingsReport.creation m.disk p
    (report, { m with disk })
  | .showLocale => (LanguageReport.summary (m.language p l), m)
  | .setLocale code =>
    let (report, language) := LanguageReport.change (m.language p l) code
    (report, m.keep p language)
where
  onSchema (path : String) (report : Form.Schema → Report) : Report :=
    FormReport.onSuccess (FormReport.schema m.disk m.folder path) report
  isSaved : Bool := !m.disk.isVacant p.settingsFile

def invoke (m : Machine) (i : Invocation) : Report × Machine :=
  match Project.load m.disk m.folder (i.projectFolder.getD m.folder.toText) with
  | .error failure => (.failure failure.message, m)
  | .ok p => (m.withLogFolder p).perform p (m.layers p i) i.command

def usage : List String :=
  ["Usage: botdeck [-v] [--project-dir DIR] [--base-url URL] COMMAND", "",
    "  version compare A B", "  version check --latest VERSION",
    "  task watch ID [--interval-ms MS]", "  form defaults SCHEMA",
    "  form validate SCHEMA VALUES", "  form visible SCHEMA [--auth-type TYPE]",
    "  form controls SCHEMA [--json]", "  form check SCHEMA",
    "  config [show | validate | init]", "  locale [show | set CODE]"]

def run (m : Machine) (arguments : List String) : Report × Machine :=
  match Invocation.ofArguments arguments with
  | .ok i => m.invoke i
  | .error .misuse => ({ output := "", ending := .misused }, m)
  | .error .help => (.ofLines usage, m)
  | .error .version => (.ofLines ["botdeck " ++ UpdateCheck.build], m)

end Machine

end BotConsole.Console
