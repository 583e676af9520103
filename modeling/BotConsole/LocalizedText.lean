import BotConsole.Dict
import BotConsole.Locale
import BotConsole.Json.Value

namespace BotConsole

structure LocalizedText where
  texts : Dict String
  deriving DecidableEq, Inhabited

namespace LocalizedText

def empty : LocalizedText := ⟨.empty⟩

def ofEnglish (text : String) : LocalizedText :=
  ⟨Dict.empty.insert Locale.english.code text⟩

def isEmpty (t : LocalizedText) : Bool :=
  t.texts.isEmpty

def resolve (t : LocalizedText) (locale : Locale) : String :=
  match t.texts.get? locale.code with
  | some text => text
  | none =>
    match t.texts.get? Locale.english.code with
    | some text => text
    | none => (t.texts.entries.head?.map (·.2)).getD ""

def ofTree? : Json.Tree → Option LocalizedText
  | .object members => do
    let pairs ← members.mapM fun (code, text) =>
      match code, text with
      | some code, .text (some text) => some (code, text)
      | _, _ => none
    some ⟨.ofPairs pairs⟩
  | _ => none

def toValue (t : LocalizedText) : Json.Value :=
  .object (t.texts.map Json.Value.text).entries

end LocalizedText

end BotConsole
