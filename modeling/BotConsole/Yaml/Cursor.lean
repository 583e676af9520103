namespace BotConsole.Yaml

def isPrintable (c : Char) : Bool :=
  let n := c.toNat
  n == 0x09 || n == 0x0A || n == 0x0D || (0x20 ≤ n && n ≤ 0x7E) || n == 0x85 ||
    (0xA0 ≤ n && n ≤ 0xFFFD) || 0x10000 ≤ n

def byteOrderMark : Char := '\ufeff'

def isBlank (c : Char) : Bool :=
  c == ' ' || c == '\t'

def isBreak (c : Char) : Bool :=
  c == '\r' || c == '\n' || c == '\u0085' || c == '\u2028' || c == '\u2029'

def isWordChar (c : Char) : Bool :=
  c.isAlphanum || c == '_' || c == '-'

-- A place in a document: what is left of it, and how many characters, lines and characters
-- of the line came before.
structure Cursor where
  rest : List Char
  index : Nat
  line : Nat
  column : Nat
  deriving Inhabited

namespace Cursor

def start (document : List Char) : Cursor :=
  ⟨document, 0, 0, 0⟩

def head? (c : Cursor) : Option Char :=
  c.rest.head?

def looksAt (c : Cursor) (char : Char) : Bool :=
  c.head? == some char

def atEnd (c : Cursor) : Bool :=
  c.rest.isEmpty

def atBlank (c : Cursor) : Bool :=
  c.head?.any isBlank

def atBreak (c : Cursor) : Bool :=
  c.head?.any isBreak

-- A blank, a line break or the end stands `n` characters ahead.
def endsWordAt (c : Cursor) (n : Nat) : Bool :=
  match c.rest[n]? with
  | none => true
  | some char => isBlank char || isBreak char

def skip (n : Nat) (c : Cursor) : Cursor :=
  ⟨c.rest.drop n, c.index + n, c.line, c.column + n⟩

def takeWhile (test : Char → Bool) (c : Cursor) : List Char × Cursor :=
  let taken := c.rest.takeWhile test
  (taken, c.skip taken.length)

def skipWhile (test : Char → Bool) (c : Cursor) : Cursor :=
  (c.takeWhile test).2

-- Past the line break that stands here; a carriage return and a line feed count as one.
def skipBreak (c : Cursor) : Cursor :=
  match c.rest with
  | '\r' :: '\n' :: rest => ⟨rest, c.index + 2, c.line + 1, 0⟩
  | _ :: rest => ⟨rest, c.index + 1, c.line + 1, 0⟩
  | [] => c

-- The line break that stands here, as text: the separators of lines and of paragraphs stay,
-- every other break is a line feed. At the end there is none.
def takeBreak (c : Cursor) : List Char × Cursor :=
  match c.head? with
  | none => ([], c)
  | some char =>
    if char = '\u2028' || char = '\u2029' then ([char], c.skipBreak)
    else if isBreak char then (['\n'], c.skipBreak)
    else ([], c)

def skipLine (c : Cursor) : Cursor :=
  c.skipWhile fun char => !isBreak char

-- Past blanks, a comment and the line break; none when anything else stands in the line.
def finishLine? (c : Cursor) : Option Cursor :=
  let c := c.skipWhile isBlank
  let c := if c.looksAt '#' then c.skipLine else c
  if c.atEnd then some c
  else if c.atBreak then some c.skipBreak
  else none

-- The mark that starts or ends a document stands at the start of this line.
def atMark (c : Cursor) (char : Char) : Bool :=
  c.column == 0 && c.rest.take 3 == [char, char, char] && c.endsWordAt 3

def atDocumentMark (c : Cursor) : Bool :=
  c.atMark '-' || c.atMark '.'

end Cursor

end BotConsole.Yaml
