import BotConsole.Form.Item

namespace BotConsole.Form

open Json

inductive Source where
  | listed (options : List Choice)
  | languageModels
  | knowledgeBases

inductive Control where
  | number (whole : Bool)
  | toggle
  | text (multiline : Bool)
  | textList
  | selection (source : Source)
  | promptEditor
  | filePicker (multiple : Bool) (accept : Option String)

structure Rendered where
  name : String
  label : String
  description : Option String
  required : Bool
  control : Control

namespace Control

def describe : Control → String
  | .number true => "integer input"
  | .number false => "number input"
  | .toggle => "toggle"
  | .text true => "multiline text input"
  | .text false => "text input"
  | .textList => "multi-value input"
  | .selection (.listed options) => "select (" ++ toString options.length ++ " options)"
  | .selection .languageModels => "select (llm models)"
  | .selection .knowledgeBases => "select (knowledge bases)"
  | .promptEditor => "prompt editor"
  | .filePicker multiple accept =>
    let kind := if multiple then "multi-file picker" else "file picker"
    match accept with
    | some types => kind ++ " [" ++ types ++ "]"
    | none => kind

def ofItem (i : Item) : Control :=
  match i.kind with
  | .integer => .number true
  | .float => .number false
  | .boolean => .toggle
  | .shortText | .unknown => .text false
  | .longText => .text true
  | .textList => .textList
  | .choice => .selection (.listed i.options)
  | .languageModel => .selection .languageModels
  | .knowledgeBase => .selection .knowledgeBases
  | .promptEditor => .promptEditor
  | .file => .filePicker false i.accept
  | .fileList => .filePicker true i.accept

private def sourceValue : Source → Value
  | .listed options => .object [("from", .text "static"),
      ("options", .list (options.map fun c =>
        .object [("name", .text c.name), ("label", c.label.toValue)]))]
  | .languageModels => .object [("from", .text "llm_models")]
  | .knowledgeBases => .object [("from", .text "knowledge_bases")]

def toValue : Control → Value
  | .number whole => .object [("kind", .text "number_input"), ("integer", .bool whole)]
  | .toggle => .object [("kind", .text "toggle")]
  | .text multiline => .object [("kind", .text "text_input"), ("multiline", .bool multiline)]
  | .textList => .object [("kind", .text "multi_value_input")]
  | .selection source => .object [("kind", .text "select"), ("source", sourceValue source)]
  | .promptEditor => .object [("kind", .text "prompt_editor")]
  | .filePicker multiple accept =>
    .object ([("kind", .text "file_picker"), ("multiple", .bool multiple)] ++
      match accept with
      | some types => [("accept", .text types)]
      | none => [])

end Control

namespace Rendered

-- A field without a label is shown under its name, one with an empty description without it.
def ofItem (locale : Locale) (i : Item) : Rendered where
  name := i.name
  label := match i.label.resolve locale with
    | "" => i.name
    | text => text
  description := (i.description.map (·.resolve locale)).filter (· != "")
  required := i.required
  control := .ofItem i

def toValue (r : Rendered) : Value :=
  let description := match r.description with
    | some text => [("description", Value.text text)]
    | none => []
  .object ([("name", .text r.name), ("label", .text r.label)] ++ description ++
    [("required", .bool r.required), ("control", r.control.toValue)])

end Rendered

def Schema.render (s : Schema) (locale : Locale) : List Rendered :=
  s.map (Rendered.ofItem locale)

end BotConsole.Form
