import BotConsole.Yaml.Cursor
import BotConsole.Yaml.Token
import BotConsole.Text.Hex

namespace BotConsole.Yaml.Property

def name? (c : Cursor) : Option (String × Cursor) :=
  let (name, c) := c.takeWhile isWordChar
  let ended := c.endsWordAt 0 || c.head?.any ['?', ':', ',', ']', '}', '%', '@', '`'].contains
  if name.isEmpty || !ended then none else some (String.ofList name, c)

def isUriChar (bracketed : Bool) (char : Char) : Bool :=
  isWordChar char ||
    [';', '/', '?', ':', '@', '&', '=', '+', '$', '.', '%', '!', '~', '*', '\'', '(', ')'].contains
      char ||
    (bracketed && [',', '[', ']'].contains char)

-- The bytes of a text in which two hexadecimal digits behind a percent sign stand for one.
def bytes? : List Char → Option (List UInt8)
  | [] => some []
  | '%' :: a :: b :: rest => do
    let n ← Text.hexValue? [a, b]
    let bytes ← bytes? rest
    some (n.toUInt8 :: bytes)
  | char :: rest =>
    if char = '%' then none else (bytes? rest).map (String.utf8EncodeChar char ++ ·)

def uri? (bracketed : Bool) (c : Cursor) : Option (String × Cursor) := do
  let (text, c) := c.takeWhile (isUriChar bracketed)
  let uri ← String.fromUTF8? ⟨(← bytes? text).toArray⟩
  some (uri, c)

-- The handle of a tag: word characters between exclamation marks, or one mark alone. What
-- else starts with a mark is given back without its closing one.
def handle? (c : Cursor) : Option (String × Bool × Cursor) :=
  if !c.looksAt '!' then none
  else
    let (word, c) := (c.skip 1).takeWhile isWordChar
    if c.looksAt '!' then some (String.ofList ('!' :: word ++ ['!']), true, c.skip 1)
    else some (String.ofList ('!' :: word), false, c)

-- The tag that starts here. Its handle is empty when the suffix is the whole tag.
def tag? (inFlow : Bool) (c : Cursor) : Option (Token × Cursor) := do
  let (token, c) ←
    if c.rest.take 2 == ['!', '<'] then do
      let (uri, c) ← uri? true (c.skip 2)
      if uri.isEmpty || !c.looksAt '>' then none else some (Token.tag "" uri, c.skip 1)
    else do
      let (handle, closed, next) ← handle? c
      if closed then
        let (suffix, c) ← uri? false next
        if suffix.isEmpty then none else some (Token.tag handle suffix, c)
      else
        let (rest, c) ← uri? false next
        let suffix := String.ofList (handle.toList.drop 1) ++ rest
        some (if suffix.isEmpty then .tag "" "!" else .tag "!" suffix, c)
  if c.endsWordAt 0 || (inFlow && c.looksAt ',') then some (token, c) else none

def versionPart? (c : Cursor) : Option (Nat × Cursor) :=
  let (digits, c) := c.takeWhile Char.isDigit
  if digits.isEmpty || 9 < digits.length then none
  else some (Nat.ofDigitChars 10 digits 0, c)

def version? (c : Cursor) : Option (Token × Cursor) := do
  let (major, c) ← versionPart? (c.skipWhile isBlank)
  if !c.looksAt '.' then none
  else
    let (minor, c) ← versionPart? (c.skip 1)
    some (.version major minor, c)

def tagShorthand? (c : Cursor) : Option (Token × Cursor) := do
  let (handle, closed, c) ← handle? (c.skipWhile isBlank)
  if (!closed && handle != "!") || !c.atBlank then none
  else
    let (start, c) ← uri? true (c.skipWhile isBlank)
    if start.isEmpty || !c.endsWordAt 0 then none else some (.tagShorthand handle start, c)

-- The directive behind its percent sign. Only two kinds are known.
def directive? (c : Cursor) : Option (Token × Cursor) := do
  let (name, c) := c.takeWhile isWordChar
  if !c.endsWordAt 0 then none
  else
    let (token, c) ← match String.ofList name with
      | "YAML" => version? c
      | "TAG" => tagShorthand? c
      | _ => none
    some (token, ← c.finishLine?)

end BotConsole.Yaml.Property
