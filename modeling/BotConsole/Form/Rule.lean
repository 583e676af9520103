import BotConsole.Form.Item
import BotConsole.Catalog

namespace BotConsole.Form

open Json

inductive Rule where
  | number (whole : Bool)
  | boolean
  | text (required : Bool)
  | textList (required : Bool)
  | promptMessages (required : Bool)
  | fileKeys (required : Bool)
  deriving DecidableEq, Repr

namespace Rule

def ofItem (i : Item) : Rule :=
  match i.kind with
  | .integer => .number true
  | .float => .number false
  | .boolean => .boolean
  | .textList => .textList i.required
  | .promptEditor => .promptMessages i.required
  | .fileList => .fileKeys i.required
  | .shortText | .longText | .file | .choice | .languageModel | .knowledgeBase | .unknown =>
    .text i.required

private def flag (name : String) (value : Bool) : String :=
  " \x7b " ++ name ++ ": " ++ toString value ++ " \x7d"

def describe : Rule → String
  | .number whole => "Number" ++ flag "integer" whole
  | .boolean => "Boolean"
  | .text required => "String" ++ flag "required" required
  | .textList required => "StringArray" ++ flag "required" required
  | .promptMessages required => "PromptMessages" ++ flag "required" required
  | .fileKeys required => "FileKeys" ++ flag "required" required

def isText (v : Value) : Bool :=
  v.text?.isSome

def isPromptMessage (v : Value) : Bool :=
  (v.member? "role").any isText && (v.member? "content").any isText

-- A list whose items all pass the test. Where a value is required the list must not be empty.
def listComplaint? (required : Bool) (test : Value → Bool) (mismatch : Message) :
    Option Value → Option Message
  | some (.list items) =>
    if !items.all test then some mismatch
    else if required && items.isEmpty then some .fieldRequired
    else none
  | none | some .null => some (if required then .fieldRequired else mismatch)
  | some _ => some mismatch

def complaint? : Rule → Option Value → Option Message
  | .number true, some (.number n) => if n.isWhole then none else some .expectedInteger
  | .number true, _ => some .expectedInteger
  | .number false, some (.number _) => none
  | .number false, _ => some .expectedNumber
  | .boolean, some (.bool _) => none
  | .boolean, _ => some .expectedBoolean
  | .text required, some (.text s) =>
    if required && s.isEmpty then some .fieldRequired else none
  | .text required, none | .text required, some .null =>
    some (if required then .fieldRequired else .expectedText)
  | .text _, some _ => some .expectedText
  | .textList required, v => listComplaint? required isText .expectedTextList v
  | .fileKeys required, v => listComplaint? required isText .expectedTextList v
  | .promptMessages required, v =>
    listComplaint? required isPromptMessage .expectedPromptMessages v

end Rule

structure FieldError where
  field : String
  message : String
  deriving DecidableEq, Repr

def FieldError.line (e : FieldError) : String :=
  e.field ++ ": " ++ e.message

def Schema.complaints (s : Schema) (values : Values) : List (String × Message) :=
  s.filterMap fun i =>
    ((Rule.ofItem i).complaint? (values.get? i.name)).map fun m => (i.name, m)

def Schema.errors (s : Schema) (values : Values) (locale : Locale) : List FieldError :=
  (s.complaints values).map fun (field, m) => ⟨field, m.text locale⟩

def FieldError.find? (errors : List FieldError) (field : String) : Option String :=
  (errors.find? (·.field == field)).map (·.message)

def FieldError.summary (errors : List FieldError) : String :=
  toString errors.length ++ " field(s) failed validation"

end BotConsole.Form
