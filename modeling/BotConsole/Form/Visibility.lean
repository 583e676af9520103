import BotConsole.Form.Item

namespace BotConsole.Form

abbrev Visibility := Item → String → Bool

namespace Visibility

def authField : String := "auth-type"

def sharedFields : List String :=
  ["webhook-url", authField, "timeout", "output-key"]

def all : Visibility := fun _ _ => true

-- A name that consists of the authentication type, a dash and anything after it.
def inGroup (authType name : String) : Bool :=
  !authType.isEmpty && (authType.toList ++ ['-']).isPrefixOf name.toList

def grouped (shared : List String) : Visibility := fun i authType =>
  shared.contains i.name || inGroup authType i.name

end Visibility

def Schema.visible (s : Schema) (visibility : Visibility) (authType : String) : Schema :=
  s.filter (visibility · authType)

end BotConsole.Form
