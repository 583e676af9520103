import BotConsole.Console.Report
import BotConsole.Language

namespace BotConsole.Console.LanguageReport

def summary (l : Language) : Report :=
  let mark (other : Locale) := if other == l.locale then "  * " else "    "
  .ofLines (["Current locale: " ++ l.locale.code, "", "Available:"] ++
    Locale.all.map fun other => mark other ++ other.code)

def change (l : Language) (code : String) : Report × Language :=
  match Locale.ofCode? code with
  | none => (.failure (Locale.invalidMessage code), l)
  | some locale =>
    match l.setLocale locale with
    | .error _ => (.failure "Failed to save locale preference", l)
    | .ok l => (.ofLines ["Locale set to " ++ locale.code], l)

end BotConsole.Console.LanguageReport
