import BotConsole.Text.Hex

namespace BotConsole.Toml

def isBlank (c : Char) : Bool :=
  c == ' ' || c == '\t'

-- Characters that no text, comment or name may hold as they are.
def isControl (c : Char) : Bool :=
  c.toNat < 0x20 || c == '\x7f'

def isPlain (c : Char) : Bool :=
  c == '\t' || !isControl c

-- The ways to quote a text: with backslashes that escape or without, and on one line or
-- between threefold quotes on several.
inductive Quotes where
  | basic
  | verbatim
  | longBasic
  | longVerbatim
  deriving DecidableEq

namespace Quotes

def mark : Quotes → Char
  | .basic | .longBasic => '"'
  | .verbatim | .longVerbatim => '\''

def isLong : Quotes → Bool
  | .basic | .verbatim => false
  | .longBasic | .longVerbatim => true

def escapes (q : Quotes) : Bool :=
  q.mark == '"'

def delimiter (q : Quotes) : List Char :=
  if q.isLong then [q.mark, q.mark, q.mark] else [q.mark]

-- The end of the text, if it stands here: the quotes that still belong to the text, and what
-- follows the closing ones. Up to two quotes may stand right before threefold ones.
def closing? (q : Quotes) (s : List Char) : Option (List Char × List Char) :=
  let run := (s.takeWhile (· == q.mark)).length
  if run < q.delimiter.length then none
  else
    let kept := if q.isLong then min (run - 3) 2 else 0
    some (List.replicate kept q.mark, s.drop (kept + q.delimiter.length))

def allows (q : Quotes) (c : Char) (s : List Char) : Bool :=
  isPlain c || (q.isLong && (c == '\n' || (c == '\r' && s.head? == some '\n')))

def letter? : Char → Option Char
  | 'b' => some '\x08'
  | 't' => some '\t'
  | 'n' => some '\n'
  | 'f' => some '\x0c'
  | 'r' => some '\r'
  | 'e' => some '\x1b'
  | '"' => some '"'
  | '\\' => some '\\'
  | _ => none

-- How many digits follow a letter that announces the number of a character.
def digitCount? : Char → Option Nat
  | 'x' => some 2
  | 'u' => some 4
  | 'U' => some 8
  | _ => none

def numbered? (digits : List Char) (count : Nat) : Option Char := do
  let n ← Text.hexValue? digits
  if digits.length = count ∧ n.isValidChar then some (Char.ofNat n) else none

-- The blanks and line breaks behind a backslash that ends its line, counted; none when
-- something else stands in that line.
def joinedLines? (s : List Char) : Option Nat :=
  match s.dropWhile isBlank with
  | '\n' :: _ | '\r' :: '\n' :: _ =>
    some (s.takeWhile fun c => isBlank c || c == '\n' || c == '\r').length
  | _ => none

-- What an escape stands for, and the number of characters behind its backslash.
def escape? (q : Quotes) : List Char → Option (List Char × Nat)
  | [] => none
  | c :: s =>
    match digitCount? c with
    | some n => (numbered? (s.take n) n).map fun c => ([c], n + 1)
    | none =>
      match letter? c with
      | some c => some ([c], 1)
      | none => if q.isLong then (joinedLines? (c :: s)).map ([], ·) else none

-- The text up to its closing quotes, and what follows them. `skip` counts the characters of
-- an escape that has been read.
def scan? (q : Quotes) : Nat → List Char → Option (List Char × List Char)
  | _, [] => none
  | skip + 1, _ :: s => scan? q skip s
  | 0, c :: s =>
    match q.closing? (c :: s) with
    | some found => some found
    | none =>
      if q.escapes && c == '\\' then
        match q.escape? s with
        | some (new, skip) => (scan? q skip s).map fun (text, rest) => (new ++ text, rest)
        | none => none
      else if q.allows c s then (scan? q 0 s).map fun (text, rest) => (c :: text, rest)
      else none

-- A line break right behind the opening quotes is not part of the text.
def dropFirstBreak : List Char → List Char
  | '\n' :: s => s
  | '\r' :: '\n' :: s => s
  | s => s

def body? (q : Quotes) (s : List Char) : Option (List Char × List Char) :=
  q.scan? 0 (if q.isLong then dropFirstBreak s else s)

def opening? : List Char → Option Quotes
  | '"' :: '"' :: '"' :: _ => some .longBasic
  | '"' :: _ => some .basic
  | '\'' :: '\'' :: '\'' :: _ => some .longVerbatim
  | '\'' :: _ => some .verbatim
  | _ => none

-- The length of the longest run of a character, behind a run of the given length.
def longestRun (mark : Char) : Nat → List Char → Nat
  | run, [] => run
  | run, c :: s => if c = mark then longestRun mark (run + 1) s else max run (longestRun mark 0 s)

-- The text holds control characters that only an escape can give.
def needsEscape (s : List Char) : Bool :=
  s.any fun c => isControl c && c != '\n' && c != '\t'

def isOneLine (s : List Char) : Bool :=
  !s.contains '\n'

-- The quotes that a text can stand in without any escape other than that of a tab, the
-- plainest of them first; escapes otherwise.
def forText (s : List Char) : Quotes :=
  let escape := needsEscape s
  let backslash := s.contains '\\'
  if isOneLine s && !escape && !backslash && !s.contains '"' then .basic
  else if isOneLine s && !escape && !s.contains '\'' then .verbatim
  else if !escape && !backslash && longestRun '"' 0 s ≤ 2 then .longBasic
  else if !escape && longestRun '\'' 0 s ≤ 2 then .longVerbatim
  else if isOneLine s then .basic
  else .longBasic

-- The quotes for a name, which has to stay on one line.
def forName (s : List Char) : Quotes :=
  let escape := needsEscape s || !isOneLine s
  if !escape && !s.contains '\\' && !s.contains '"' then .basic
  else if !escape && !s.contains '\'' then .verbatim
  else .basic

def numberEscape (c : Char) : List Char :=
  let digit (n : Nat) : Char := (Nat.digitChar n).toUpper
  ['\\', 'u', '0', '0', digit (c.toNat / 16), digit (c.toNat % 16)]

def escapeOf? (q : Quotes) : Char → Option (List Char)
  | '\x08' => some ['\\', 'b']
  | '\t' => some ['\\', 't']
  | '\n' => if q.isLong then none else some ['\\', 'n']
  | '\x0c' => some ['\\', 'f']
  | '\r' => some ['\\', 'r']
  | '\\' => some ['\\', '\\']
  | c => if isControl c then some (numberEscape c) else none

def maxRun (q : Quotes) : Nat :=
  if q.isLong then 2 else 0

-- The text with its escapes, where `run` quotes stand right before it.
def escaped (q : Quotes) : Nat → List Char → List Char
  | _, [] => []
  | run, c :: s =>
    match q.escapeOf? c with
    | some escape => escape ++ escaped q 0 s
    | none =>
      if c ≠ '"' then c :: escaped q 0 s
      else if run < q.maxRun then c :: escaped q (run + 1) s
      else '\\' :: '"' :: escaped q 0 s

-- The text between its quotes. One of several lines begins on a line of its own.
def enclose (q : Quotes) (s : List Char) : List Char :=
  let lead := if q.isLong && !isOneLine s then ['\n'] else []
  let body := if q.escapes then q.escaped 0 s else s
  q.delimiter ++ lead ++ body ++ q.delimiter

end Quotes

end BotConsole.Toml
