import BotConsole.Form.Item
import BotConsole.Yaml.Document

namespace BotConsole.Form

open Yaml Document

private def orElse {α : Type} (default : α) (read : Node → Reading α) : Option Node → Reading α
  | none => return default
  | some n => read n

private def nullableField {α : Type} (d : Document) (read : Node → Reading α) :
    Option Node → Reading (Option α)
  | none => return none
  | some n => d.nullable read n

private def localizedText (d : Document) (depth : Nat) (n : Node) : Reading LocalizedText := do
  let (_, members) ← d.members depth n
  return ⟨.ofPairs (← members.mapM fun (code, n) => return (code, ← d.text n))⟩

private def choice (d : Document) (depth : Nat) (n : Node) : Reading Choice := do
  let (depth, fields) ← d.fields ["name", "label"] depth n
  match fields with
  | [some name, label] =>
    return ⟨← d.text name, ← orElse .empty (localizedText d depth) label⟩
  | _ => fail

private def kind (d : Document) (depth : Nat) (n : Node) : Reading Kind := do
  match ← d.textOfAny depth n with
  | some name => return .ofName name
  | none => return .unknown

private def item (d : Document) (depth : Nat) (n : Node) : Reading Item := do
  let (depth, fields) ← d.fields Item.fieldNames depth n
  match fields with
  | [id, name, type, default, required, label, description, options, accept] =>
    return {
      id := ← orElse "" d.text id
      name := ← orElse "" d.text name
      kind := ← orElse .unknown (kind d depth) type
      default := ← orElse .null (d.value depth) default
      required := ← orElse false d.bool required
      label := ← orElse .empty (localizedText d depth) label
      description := ← nullableField d (localizedText d depth) description
      options := ← orElse [] (d.list (choice d) depth) options
      accept := ← nullableField d d.text accept }
  | _ => fail

-- The schema of a YAML text. A text without a document is a form without fields.
def Schema.ofYaml? (text : List Char) : Option Schema := do
  let d ← Document.ofText? text
  d.read? [] fun d depth n => d.list (item d) depth n

end BotConsole.Form
