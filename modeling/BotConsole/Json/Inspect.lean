import BotConsole.Json.Value
import BotConsole.Text.Quoted

namespace BotConsole.Json.Value

open Text

mutual

def inspect : Value → String
  | .null => "Null"
  | .bool b => "Bool(" ++ toString b ++ ")"
  | .number n => "Number(" ++ String.ofList n.toChars ++ ")"
  | .text s => "String(" ++ quoted s ++ ")"
  | .list items => "Array " ++ bracketed "[" (inspectItems items) "]"
  | .object members => "Object " ++ bracketed "\x7b" (inspectMembers members) "\x7d"

def inspectItems : List Value → List String
  | [] => []
  | v :: items => inspect v :: inspectItems items

def inspectMembers : List (String × Value) → List String
  | [] => []
  | (k, v) :: members => (quoted k ++ ": " ++ inspect v) :: inspectMembers members

end

end BotConsole.Json.Value
