import BotConsole.Binary64.Numeral
import BotConsole.Text.Hex
import BotConsole.Text.Split

namespace BotConsole.Toml.Numeral

-- The digits of a group, where single underscores may stand between digits.
def grouped? (isDigit : Char → Bool) (s : List Char) : Option (List Char) :=
  let runs := Text.splitOn '_' s
  if runs.all fun run => !run.isEmpty && run.all isDigit then some runs.flatten else none

def isHexDigit (c : Char) : Bool :=
  (Text.hexDigit? c).isSome

def isOctalDigit (c : Char) : Bool :=
  '0' ≤ c && c ≤ '7'

def isBinaryDigit (c : Char) : Bool :=
  c == '0' || c == '1'

-- The digits of a whole number; a zero in front of other digits is refused.
def whole? (s : List Char) : Option (List Char) :=
  if s.head? = some '0' ∧ 1 < s.length then none else grouped? Char.isDigit s

def negate (negative : Bool) (n : Nat) : Int :=
  if negative then -n else n

def sign : List Char → Bool × List Char
  | '-' :: s => (true, s)
  | '+' :: s => (false, s)
  | s => (false, s)

-- An integer in decimal digits, or without a sign in hexadecimal, octal or binary ones.
def unbounded? : List Char → Option Int
  | '0' :: 'x' :: s => ((grouped? isHexDigit s).bind Text.hexValue?).map Int.ofNat
  | '0' :: 'o' :: s => (grouped? isOctalDigit s).map fun ds => Nat.ofDigitChars 8 ds 0
  | '0' :: 'b' :: s => (grouped? isBinaryDigit s).map fun ds => Nat.ofDigitChars 2 ds 0
  | s =>
    let (negative, s) := sign s
    (whole? s).map fun ds => negate negative (Nat.ofDigitChars 10 ds 0)

-- An integer of at most 128 bits, signed or unsigned.
def integer? (s : List Char) : Option Int := do
  let i ← unbounded? s
  if -(1 <<< 127 : Nat) ≤ i ∧ i < (1 <<< 128 : Nat) then some i else none

def exponent? (s : List Char) : Option (List Char) := do
  let (negative, s) := sign s
  let digits ← grouped? Char.isDigit s
  some (if negative then '-' :: digits else digits)

def mantissa? (s : List Char) : Option (List Char) :=
  match Text.splitFirst '.' s with
  | none => whole? s
  | some (s, places) => do
    let whole ← whole? s
    let places ← grouped? Char.isDigit places
    some (whole ++ '.' :: places)

-- The float in plain digits, without underscores: it has a point, an exponent or both.
def digits? (s : List Char) : Option (List Char) :=
  match Text.splitFirst 'e' (s.map fun c => if c = 'E' then 'e' else c) with
  | none => if s.contains '.' then mantissa? s else none
  | some (s, exponent) => do
    let mantissa ← mantissa? s
    let exponent ← exponent? exponent
    some (mantissa ++ 'e' :: exponent)

-- A float within the range of binary64, or one of the words for what is not.
def isFloat (s : List Char) : Bool :=
  let s := (sign s).2
  s == ['i', 'n', 'f'] || s == ['n', 'a', 'n'] ||
    ((digits? s).bind Binary64.ofText?).isSome

end BotConsole.Toml.Numeral
