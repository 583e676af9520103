import BotConsole.Form.Yaml
import BotConsole.Text.Split

namespace BotConsole.Form

inductive Format where
  | json
  | yaml
  deriving DecidableEq

namespace Format

-- What stands behind the last point of a file's name, unless that point begins the name.
def extension? (path : String) : Option String :=
  let name := ((Text.splitOn '/' path.toList).getLast?).getD []
  let behind := (name.reverse.takeWhile (· != '.')).reverse
  if name.length ≤ behind.length + 1 then none else some (String.ofList behind)

def ofPath (path : String) : Format :=
  if ["yaml", "yml"].contains ((extension? path).getD "") then .yaml else .json

end Format

def Schema.ofText? (format : Format) (text : List Char) : Option Schema :=
  match format with
  | .json => ofJson? text
  | .yaml => ofYaml? text

end BotConsole.Form
