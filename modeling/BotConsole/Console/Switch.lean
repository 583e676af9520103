namespace BotConsole.Console

structure Switch where
  name : String
  letter : Option Char := none
  -- The values that an option accepts; none for a flag.
  accepts : Option (String → Bool) := none

inductive Stop where
  | misuse
  | help
  | version
  deriving DecidableEq, Inhabited

-- Flags that ask for an explanation end the reading; `hasVersion` is for the level that tells its
-- version.
structure Level where
  switches : List Switch
  operands : List (String → Bool)
  commands : List String
  hasVersion : Bool := false

structure Words where
  values : List (String × String) := []
  operands : List String := []
  next : Option (String × List String) := none
  deriving Inhabited

namespace Words

def value? (w : Words) (name : String) : Option String :=
  w.values.lookup name

def has (w : Words) (name : String) : Bool :=
  (w.value? name).isSome

end Words

namespace Level

def note (w : Words) (name value : String) : Except Stop Words :=
  if w.has name then .error .misuse else .ok { w with values := w.values ++ [(name, value)] }

def operand (l : Level) (w : Words) (word : String) : Except Stop Words :=
  match l.operands[w.operands.length]? with
  | some accepts =>
    if accepts word then .ok { w with operands := w.operands ++ [word] } else .error .misuse
  | none => .error .misuse

def flag (l : Level) (w : Words) (name : String) : Except Stop Words :=
  if name == "help" then .error .help
  else if l.hasVersion && name == "version" then .error .version
  else match l.switches.find? (·.name == name) with
    | some s => if s.accepts.isNone then note w name "" else .error .misuse
    | none => .error .misuse

def nameOf? (l : Level) (letter : Char) : Option String :=
  if letter = 'h' then some "help"
  else if l.hasVersion && letter = 'V' then some "version"
  else (l.switches.find? (·.letter == some letter)).map (·.name)

def flags (l : Level) (w : Words) : List Char → Except Stop Words
  | [] => .ok w
  | letter :: letters =>
    match l.nameOf? letter with
    | none => .error .misuse
    | some name => do flags l (← l.flag w name) letters

def option (w : Words) (s : Switch) (value : String) : Except Stop Words :=
  match s.accepts with
  | some accepts => if accepts value then note w s.name value else .error .misuse
  | none => .error .misuse

-- The value of an option may not look like a switch; a dash alone does not.
def isValue (word : String) : Bool :=
  word == "-" || word.toList.head? != some '-'

def option? (l : Level) (word : List Char) : Option Switch :=
  match word with
  | '-' :: '-' :: name =>
    l.switches.find? fun s => s.accepts.isSome && s.name.toList == name
  | _ => none

def splitValue (word : List Char) : String × Option String :=
  let name := word.takeWhile (· != '=')
  match word.dropWhile (· != '=') with
  | [] => (String.ofList name, none)
  | _ :: value => (String.ofList name, some (String.ofList value))

def switch (l : Level) (w : Words) (word : List Char) : Except Stop Words :=
  match word with
  | '-' :: '-' :: rest =>
    match splitValue rest with
    | (name, none) => l.flag w name
    | (name, some value) =>
      match l.switches.find? (·.name == name) with
      | some s => option w s value
      | none => .error .misuse
  | '-' :: letters => l.flags w letters
  | _ => .error .misuse

-- Reads the words of a level. Behind two dashes every word is an operand.
def read (l : Level) (isLiteral : Bool) (w : Words) : List String → Except Stop Words
  | [] => .ok w
  | word :: rest =>
    if isLiteral then do read l true (← l.operand w word) rest
    else if l.commands.contains word then .ok { w with next := some (word, rest) }
    else if !l.commands.isEmpty && word == "help" then .error .help
    else if word == "--" then read l true w rest
    else match l.option? word.toList, rest with
      | some s, value :: rest =>
        if isValue value then do read l false (← option w s value) rest else .error .misuse
      | some _, [] => .error .misuse
      | none, rest =>
        if isValue word then do read l false (← l.operand w word) rest
        else do read l false (← l.switch w word.toList) rest

end Level

end BotConsole.Console
