import BotConsole.Form.Kind
import BotConsole.LocalizedText
import BotConsole.Json.Record
import BotConsole.Json.Reader

namespace BotConsole.Form

open Json

structure Choice where
  name : String
  label : LocalizedText
  deriving DecidableEq, Inhabited

structure Item where
  id : String
  name : String
  kind : Kind
  default : Value
  required : Bool
  label : LocalizedText
  description : Option LocalizedText
  options : List Choice
  accept : Option String
  deriving DecidableEq, Inhabited

abbrev Values := Dict Value

namespace Choice

def ofTree? (t : Tree) : Option Choice := do
  match ← Record.fields? ["name", "label"] t with
  | [name, label] =>
    some {
      name := ← Record.required Record.text? name
      label := ← Record.orElse .empty LocalizedText.ofTree? label }
  | _ => none

def toTree (c : Choice) : Tree :=
  .object [(some "name", .text (some c.name)), (some "label", c.label.toValue.toTree)]

def shape : Record.Shape :=
  [("name", id), ("label", id)]

def ofName (name : String) : Choice :=
  ⟨name, .ofEnglish name⟩

end Choice

namespace Item

def ofName (name : String) (kind : Kind) : Item where
  id := name
  name
  kind
  default := .null
  required := false
  label := .ofEnglish name
  description := none
  options := []
  accept := none

-- The kind that a document names. Whatever else it holds, it means `unknown`, as long as it
-- can be read.
def kindOfTree? (t : Tree) : Option Kind :=
  t.value?.map fun v => match v with
    | .text name => .ofName name
    | _ => .unknown

def fieldNames : List String :=
  ["id", "name", "type", "default", "required", "label", "description", "options", "accept"]

def ofTree? (t : Tree) : Option Item := do
  match ← Record.fields? fieldNames t with
  | [id, name, kind, default, required, label, description, options, accept] =>
    some {
      id := ← Record.orElse "" Record.text? id
      name := ← Record.orElse "" Record.text? name
      kind := ← Record.orElse .unknown kindOfTree? kind
      default := ← Record.orElse .null Tree.value? default
      required := ← Record.orElse false Record.bool? required
      label := ← Record.orElse .empty LocalizedText.ofTree? label
      description := ← Record.nullable LocalizedText.ofTree? description
      options := ← Record.orElse [] (Record.list? Choice.ofTree?) options
      accept := ← Record.nullable Record.text? accept }
  | _ => none

def shape : Record.Shape :=
  let options := Record.listPart (Record.readPart Choice.shape)
  fieldNames.map fun name => (name, fun t => if name = "options" then options t else t)

def toTree (i : Item) : Tree :=
  let text (s : String) : Tree := .text (some s)
  let description := match i.description with
    | none => []
    | some d => [(some "description", d.toValue.toTree)]
  let options := match i.options with
    | [] => []
    | cs => [(some "options", .list (cs.map Choice.toTree))]
  let accept := match i.accept with
    | none => []
    | some a => [(some "accept", text a)]
  .object ([(some "id", text i.id), (some "name", text i.name), (some "type", text i.kind.name),
    (some "default", i.default.toTree), (some "required", .bool i.required),
    (some "label", i.label.toValue.toTree)] ++ description ++ options ++ accept)

end Item

abbrev Schema := List Item

namespace Schema

def ofTree? : Tree → Option Schema :=
  Record.list? Item.ofTree?

def readPart : Tree → Tree :=
  Record.listPart (Record.readPart Item.shape)

def toTree (s : Schema) : Tree :=
  .list (s.map Item.toTree)

-- The schema of a JSON text. Nesting is limited in the parts that are read.
def ofJson? (text : List Char) : Option Schema := do
  let t ← Tree.read? text
  if (readPart t).depth ≤ Tree.maxDepth then ofTree? t else none

def defaults (s : Schema) : Values :=
  .ofPairs (s.map fun i => (i.name, i.default))

end Schema

inductive Flaw where
  | emptyName (index : Nat)
  | duplicateName (name : String) (first duplicate : Nat)
  deriving DecidableEq

namespace Flaw

def message : Flaw → String
  | .emptyName index => "item #" ++ toString index ++ " has an empty name"
  | .duplicateName name first duplicate =>
    "name '" ++ name ++ "' is used by items #" ++ toString first ++ " and #" ++
      toString duplicate ++ "; the later default wins"

-- The flaws from `index` on, given where the names before were first used.
def scan (seen : List (String × Nat)) (index : Nat) : List String → List Flaw
  | [] => []
  | name :: names =>
    if Text.allBlank name then .emptyName index :: scan seen (index + 1) names
    else match seen.lookup name with
      | some first => .duplicateName name first index :: scan seen (index + 1) names
      | none => scan ((name, index) :: seen) (index + 1) names

end Flaw

def Schema.flaws (s : Schema) : List Flaw :=
  Flaw.scan [] 0 (s.map Item.name)

end BotConsole.Form
