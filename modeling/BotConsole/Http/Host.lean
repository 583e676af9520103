import BotConsole.Http.Percent
import BotConsole.Text.Split

namespace BotConsole.Http

namespace Ipv4

def number? : List Char → Option Nat
  | [] => none
  | '0' :: 'x' :: digits | '0' :: 'X' :: digits => Text.hexValue? digits
  | '0' :: c :: digits =>
    if (c :: digits).all (fun c => '0' ≤ c && c ≤ '7') then
      some (Nat.ofDigitChars 8 (c :: digits) 0)
    else none
  | digits => if digits.all Char.isDigit then some (Nat.ofDigitChars 10 digits 0) else none

-- Names whose last part is a number are read as addresses.
def endsInNumber (s : List Char) : Bool :=
  let last := match (Text.splitOn '.' s).reverse with
    | [] :: last :: _ => last
    | last :: _ => last
    | [] => []
  (!last.isEmpty && last.all Char.isDigit) || (number? last).isSome

-- Up to four parts; the last one fills the bytes that the others leave.
def ofText? (s : List Char) : Option Nat := do
  let parts := Text.splitOn '.' s
  let parts := if parts.getLast? = some [] then parts.dropLast else parts
  let numbers ← parts.mapM number?
  let last ← numbers.getLast?
  let front := numbers.dropLast
  let size := 1 <<< (8 * (4 - front.length))
  if 3 < front.length || front.any (255 < ·) || size ≤ last then none
  else some (front.foldl (256 * · + ·) 0 * size + last)

def text (n : Nat) : List Char :=
  Text.joinWith ['.'] ([24, 16, 8, 0].map fun bits => Nat.toDigits 10 ((n >>> bits) % 256))

end Ipv4

namespace Ipv6

def piece? (s : List Char) : Option Nat :=
  if s.isEmpty || 4 < s.length then none else Text.hexValue? s

def byte? (s : List Char) : Option Nat :=
  if s.isEmpty || !s.all Char.isDigit || (s.head? = some '0' && 1 < s.length) then none
  else (some (Nat.ofDigitChars 10 s 0)).filter (· ≤ 255)

def dotted? (s : List Char) : Option (List Nat) :=
  match (Text.splitOn '.' s).mapM byte? with
  | some [a, b, c, d] => some [256 * a + b, 256 * c + d]
  | _ => none

def pieces? (s : List Char) (hasDotted : Bool) : Option (List Nat) :=
  if s.isEmpty then some []
  else do
    let parts := Text.splitOn ':' s
    let front ← parts.dropLast.mapM piece?
    let last ← parts.getLast?
    let dotted := if hasDotted then dotted? last else none
    some (front ++ (← ((piece? last).map ([·])).or dotted))

def splitGap : List Char → Option (List Char × List Char)
  | ':' :: ':' :: s => some ([], s)
  | c :: s => (splitGap s).map fun (before, behind) => (c :: before, behind)
  | [] => none

def ofText? (s : List Char) : Option (List Nat) :=
  match splitGap s with
  | none => (pieces? s true).filter (·.length = 8)
  | some (before, behind) => do
    let before ← pieces? before false
    let behind ← pieces? behind true
    let count := before.length + behind.length
    if 7 < count then none else some (before ++ List.replicate (8 - count) 0 ++ behind)

-- Where the first of the longest runs of zeros begins, with its length.
def longestGap (pieces : List Nat) : Nat × Nat :=
  (List.range pieces.length).foldl (fun best start =>
    let count := ((pieces.drop start).takeWhile (· = 0)).length
    if best.2 < count then (start, count) else best) (0, 0)

def text (pieces : List Nat) : List Char :=
  let digits (pieces : List Nat) := Text.joinWith [':'] (pieces.map (Nat.toDigits 16))
  let (start, count) := longestGap pieces
  if count < 2 then digits pieces
  else digits (pieces.take start) ++ [':', ':'] ++ digits (pieces.drop (start + count))

end Ipv6

def isHostChar (c : Char) : Bool :=
  !(c.toNat ≤ 0x20 || c.toNat == 0x7F ||
    ['#', '/', ':', '<', '>', '?', '@', '[', '\\', ']', '^', '|', '%'].contains c)

-- A host as addresses have it: an IPv6 address in brackets, an IPv4 address, or a name in
-- lower case.
def host? : List Char → Option (List Char)
  | '[' :: s =>
    if s.getLast? = some ']' then
      (Ipv6.ofText? s.dropLast).map fun pieces => '[' :: Ipv6.text pieces ++ [']']
    else none
  | s => do
    let name := (← Percent.decode? s).map Char.toLower
    if name.isEmpty || !name.all isHostChar then none
    else if Ipv4.endsInNumber name then (Ipv4.ofText? name).map Ipv4.text
    else some name

end BotConsole.Http
