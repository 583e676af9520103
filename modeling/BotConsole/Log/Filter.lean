import BotConsole.Log.Level
import BotConsole.Text.Blank
import BotConsole.Text.Split

namespace BotConsole.Log

structure Directive where
  target : Option String
  level : Level
  deriving DecidableEq, Inhabited

namespace Directive

def mayBegin (c : Char) : Bool :=
  Text.isAlphanumeric c || c == '-' || c == ':' || c == '_'

-- A level alone, a target alone, which lets everything through, or a target with a level.
-- Brackets, which would select parts of a target, are not understood.
def ofText? (s : List Char) : Option Directive :=
  match Text.trim s with
  | [] => none
  | c :: _ =>
    if !mayBegin c then none
    else match Text.splitFirst '=' s with
      | none =>
        if s.contains '[' then none
        else match Level.ofText? s with
          | some l => some ⟨none, l⟩
          | none => some ⟨some (String.ofList s), .trace⟩
      | some (target, level) =>
        if target.contains '[' || target.head?.any Text.isBlank then none
        else if level.isEmpty then some ⟨some (String.ofList target), .trace⟩
        else (Level.ofText? level).map fun l => ⟨some (String.ofList target), l⟩

def concerns (d : Directive) (target : String) : Bool :=
  match d.target with
  | none => true
  | some start => start.toList.isPrefixOf target.toList

-- The first directive is the more specific one: its target is longer in UTF-8 bytes, or it
-- comes later in the order of texts. A directive without a target is the least specific.
def precedes (d e : Directive) : Bool :=
  match d.target, e.target with
  | none, _ => false
  | some _, none => true
  | some s, some t =>
    t.utf8ByteSize < s.utf8ByteSize || (t.utf8ByteSize == s.utf8ByteSize && decide (t < s))

def toText (d : Directive) : String :=
  match d.target with
  | none => d.level.name
  | some target => target ++ "=" ++ d.level.name

end Directive

-- Directives from the most specific one on, at most one for each target.
abbrev Filter := List Directive

namespace Filter

def insert (d : Directive) : Filter → Filter
  | [] => [d]
  | e :: f =>
    if d.target = e.target then d :: f
    else if d.precedes e then d :: e :: f
    else e :: insert d f

def ofText? (s : String) : Option Filter := do
  let parts := (Text.splitOn ',' s.toList).filter (!·.isEmpty)
  let directives ← parts.mapM Directive.ofText?
  some (directives.foldl (fun f d => insert d f) [])

def toText (f : Filter) : String :=
  String.intercalate "," (f.map Directive.toText)

def admits (f : Filter) (target : String) (level : Level) : Bool :=
  match f.find? (·.concerns target) with
  | none => false
  | some d => d.level.admits level

end Filter

end BotConsole.Log
