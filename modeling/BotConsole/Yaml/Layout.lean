import BotConsole.Yaml.Block
import BotConsole.Yaml.Plain
import BotConsole.Yaml.Property
import BotConsole.Yaml.Quoted
import BotConsole.Yaml.Token

namespace BotConsole.Yaml

-- A place where a key may have begun that only a later colon shows to be one: the number of
-- tokens before it, and whether nothing else than a key may stand there.
structure KeyPlace where
  number : Nat
  required : Bool
  index : Nat
  line : Nat
  column : Nat

-- A document that is being cut into tokens. The indentation of the innermost block
-- collection is -1 outside of all of them.
structure Layout where
  cursor : Cursor
  tokens : Array Token
  indent : Int
  outerIndents : List Int
  keyPlace : Option KeyPlace
  outerKeyPlaces : List (Option KeyPlace)
  keyAllowed : Bool
  deriving Inhabited

namespace Layout

def start (document : List Char) : Layout where
  cursor := .start document
  tokens := #[]
  indent := -1
  outerIndents := []
  keyPlace := none
  outerKeyPlaces := []
  keyAllowed := true

def inFlow (s : Layout) : Bool :=
  !s.outerKeyPlaces.isEmpty

def push (s : Layout) (token : Token) : Layout :=
  { s with tokens := s.tokens.push token }

def advance (s : Layout) (n : Nat) : Layout :=
  { s with cursor := s.cursor.skip n }

-- Past blanks, comments and line breaks. Behind a line break a key may begin again.
def skipGap : Nat → Layout → Layout
  | 0, s => s
  | fuel + 1, s =>
    let c := s.cursor
    let c := if c.column == 0 && c.looksAt byteOrderMark then c.skip 1 else c
    let c := c.skipWhile fun char =>
      char == ' ' || (char == '\t' && (s.inFlow || !s.keyAllowed))
    let c := if c.looksAt '#' then c.skipLine else c
    if c.atBreak then
      skipGap fuel { s with cursor := c.skipBreak, keyAllowed := s.keyAllowed || !s.inFlow }
    else { s with cursor := c }

-- The place of a key that is not over yet: on this line, and not too far back.
def isFresh (c : Cursor) (k : KeyPlace) : Bool :=
  k.line == c.line && c.index ≤ k.index + 1024

-- Gives up a possible key, unless it had to be one.
def refuse? (k : Option KeyPlace) : Option Unit :=
  if k.any (·.required) then none else some ()

def expire? (c : Cursor) (k : Option KeyPlace) : Option (Option KeyPlace) :=
  match k with
  | none => some none
  | some k => if isFresh c k then some (some k) else do refuse? (some k); some none

def expireKeys? (s : Layout) : Option Layout := do
  let keyPlace ← expire? s.cursor s.keyPlace
  let outerKeyPlaces ← s.outerKeyPlaces.mapM (expire? s.cursor)
  some { s with keyPlace, outerKeyPlaces }

def dropKey? (s : Layout) : Option Layout := do
  refuse? s.keyPlace
  some { s with keyPlace := none }

def markKey? (s : Layout) : Option Layout := do
  if !s.keyAllowed then some s
  else
    let s ← s.dropKey?
    let c := s.cursor
    let required := !s.inFlow && s.indent == c.column
    some { s with keyPlace := some ⟨s.tokens.size, required, c.index, c.line, c.column⟩ }

def closeBlocks (column : Int) : List Int → Layout → Layout
  | [], s => s
  | outer :: outers, s =>
    if column < s.indent then
      closeBlocks column outers { s.push .blockEnd with indent := outer, outerIndents := outers }
    else s

def closeTo (s : Layout) (column : Int) : Layout :=
  if s.inFlow then s else closeBlocks column s.outerIndents s

-- Begins a block collection at `column` unless one is open there; its token goes in front of
-- those from `number` on.
def openBlock (s : Layout) (column number : Nat) (token : Token) : Layout :=
  if s.inFlow || (column : Int) ≤ s.indent then s
  else { s with
    indent := column
    outerIndents := s.indent :: s.outerIndents
    tokens := s.tokens.insertIdxIfInBounds number token }

def openBlockHere (s : Layout) (token : Token) : Layout :=
  s.openBlock s.cursor.column s.tokens.size token

-- An entry or a key that is marked by a sign of its own. In a block it opens the collection.
def blockSign? (s : Layout) (block sign : Token) : Option Layout := do
  if !s.inFlow && !s.keyAllowed then none
  else
    let s ← (s.openBlockHere block).dropKey?
    some ((s.push sign).advance 1)

def value? (s : Layout) : Option Layout :=
  match s.keyPlace with
  | some k =>
    let s := { s with tokens := s.tokens.insertIdxIfInBounds k.number .key }
    let s := s.openBlock k.column k.number .blockMapping
    some (({ s with keyPlace := none, keyAllowed := false }.push .value).advance 1)
  | none =>
    if !s.inFlow && !s.keyAllowed then none
    else
      let s := s.openBlockHere .blockMapping
      some (({ s with keyAllowed := !s.inFlow }.push .value).advance 1)

def flowStart? (s : Layout) (token : Token) : Option Layout := do
  let s ← s.markKey?
  some (({ s with
    outerKeyPlaces := s.keyPlace :: s.outerKeyPlaces
    keyPlace := none
    keyAllowed := true }.push token).advance 1)

def flowEnd? (s : Layout) (token : Token) : Option Layout := do
  let s ← s.dropKey?
  let s := match s.outerKeyPlaces with
    | [] => s
    | k :: outer => { s with keyPlace := k, outerKeyPlaces := outer }
  some (({ s with keyAllowed := false }.push token).advance 1)

def leaf? (s : Layout) (scanned : Option (Token × Cursor)) : Option Layout := do
  let s ← s.markKey?
  let (token, cursor) ← scanned
  some ({ s with keyAllowed := false, cursor }.push token)

def quoted? (s : Layout) (style : Style) (quote : Char) : Option Layout :=
  let c := s.cursor.skip 1
  s.leaf? <| (Quoted.scan? quote (c.rest.length + 1) [] c).map fun (text, c) =>
    (.scalar style (String.ofList text), c)

def block? (s : Layout) (style : Style) : Option Layout := do
  let s ← s.dropKey?
  let (text, cursor) ← Block.scan? (style == .folded) s.indent (s.cursor.skip 1)
  some ({ s with keyAllowed := true, cursor }.push (.scalar style (String.ofList text)))

-- A scalar without quotes. When it ended at a line break a key may follow.
def plain? (s : Layout) : Option Layout := do
  if !Plain.startsAt s.inFlow s.cursor then none
  else
    let s ← s.markKey?
    let c := s.cursor
    let margin := (s.indent + 1).toNat
    let (text, cursor, broken) ←
      Plain.scan? s.inFlow margin (c.rest.length + 1) [] (.blanks []) c
    some ({ s with keyAllowed := broken, cursor }.push (.scalar .plain (String.ofList text)))

def outermost? (s : Layout) (scanned : Option (Token × Cursor)) : Option Layout := do
  let s ← (s.closeTo (-1)).dropKey?
  let (token, cursor) ← scanned
  some ({ s with keyAllowed := false, cursor }.push token)

-- The next token; the second part is false at the end of the document.
def next? (s : Layout) : Option (Layout × Bool) := do
  let s := s.skipGap (s.cursor.rest.length + 1)
  let s ← s.expireKeys?
  let s := s.closeTo s.cursor.column
  let c := s.cursor
  match c.head? with
  | none =>
    let s ← (s.closeTo (-1)).dropKey?
    some (s, false)
  | some char =>
    let s ←
      if c.column == 0 && char == '%' then s.outermost? (Property.directive? (c.skip 1))
      else if c.atMark '-' then s.outermost? (some (.documentStart, c.skip 3))
      else if c.atMark '.' then s.outermost? (some (.documentEnd, c.skip 3))
      else match char with
        | '[' => s.flowStart? .flowSequence
        | '{' => s.flowStart? .flowMapping
        | ']' => s.flowEnd? .flowSequenceEnd
        | '}' => s.flowEnd? .flowMappingEnd
        | ',' => do
          let s ← s.dropKey?
          some (({ s with keyAllowed := true }.push .flowEntry).advance 1)
        | '*' => s.leaf? ((Property.name? (c.skip 1)).map fun (name, c) => (.alias name, c))
        | '&' => s.leaf? ((Property.name? (c.skip 1)).map fun (name, c) => (.anchor name, c))
        | '!' => s.leaf? (Property.tag? s.inFlow c)
        | '\'' => s.quoted? .singleQuoted '\''
        | '"' => s.quoted? .doubleQuoted '"'
        | char =>
          if char == '-' && c.endsWordAt 1 then
            (s.blockSign? .blockSequence .blockEntry).map fun s => { s with keyAllowed := true }
          else if char == '?' && (s.inFlow || c.endsWordAt 1) then
            (s.blockSign? .blockMapping .key).map fun s => { s with keyAllowed := !s.inFlow }
          else if char == ':' && (s.inFlow || c.endsWordAt 1) then s.value?
          else if char == '|' && !s.inFlow then s.block? .literal
          else if char == '>' && !s.inFlow then s.block? .folded
          else s.plain?
    some (s, true)

def run? : Nat → Layout → Option (List Token)
  | 0, _ => none
  | fuel + 1, s => do
    let (s, more) ← s.next?
    if more then run? fuel s else some s.tokens.toList

end Layout

def Token.ofText? (document : List Char) : Option (List Token) :=
  if document.all isPrintable then Layout.run? (document.length + 2) (.start document) else none

end BotConsole.Yaml
