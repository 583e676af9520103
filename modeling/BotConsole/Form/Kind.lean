import BotConsole.Text.Blank

namespace BotConsole.Form

inductive Kind where
  | integer
  | float
  | boolean
  | shortText
  | longText
  | textList
  | file
  | fileList
  | choice
  | languageModel
  | promptEditor
  | knowledgeBase
  | unknown
  deriving DecidableEq, Inhabited, Repr

namespace Kind

def all : List Kind :=
  [.integer, .float, .boolean, .shortText, .longText, .textList, .file, .fileList, .choice,
    .languageModel, .promptEditor, .knowledgeBase, .unknown]

def name : Kind → String
  | .integer => "integer"
  | .float => "float"
  | .boolean => "boolean"
  | .shortText => "string"
  | .longText => "text"
  | .textList => "array[string]"
  | .file => "file"
  | .fileList => "array[file]"
  | .choice => "select"
  | .languageModel => "llm-model-selector"
  | .promptEditor => "prompt-editor"
  | .knowledgeBase => "knowledge-base-selector"
  | .unknown => "unknown"

def tag : Kind → String
  | .integer => "Integer"
  | .float => "Float"
  | .boolean => "Boolean"
  | .shortText => "String"
  | .longText => "Text"
  | .textList => "StringArray"
  | .file => "File"
  | .fileList => "FileArray"
  | .choice => "Select"
  | .languageModel => "LlmModelSelector"
  | .promptEditor => "PromptEditor"
  | .knowledgeBase => "KnowledgeBaseSelector"
  | .unknown => "Unknown"

def ofName (name : String) : Kind :=
  let trimmed := String.ofList (Text.trim name.toList)
  (all.find? fun k => k.name == trimmed).getD .unknown

theorem ofName_name (k : Kind) : ofName k.name = k := by
  cases k <;> decide +kernel

end Kind

end BotConsole.Form
