import BotConsole.Text.Hex

namespace BotConsole.Http.Percent

def encodeChar (c : Char) : List Char :=
  (String.utf8EncodeChar c).flatMap fun b =>
    let digit (n : Nat) : Char := (Nat.digitChar n).toUpper
    ['%', digit (b.toNat / 16), digit (b.toNat % 16)]

def encode (reserved : List Char) (s : List Char) : List Char :=
  s.flatMap fun c =>
    if c.toNat ≤ 0x1F || 0x7F ≤ c.toNat || reserved.contains c then encodeChar c else [c]

def bytes : List Char → List UInt8
  | [] => []
  | '%' :: a :: b :: s =>
    match Text.hexDigit? a, Text.hexDigit? b with
    | some high, some low => UInt8.ofNat (16 * high + low) :: bytes s
    | _, _ => String.utf8EncodeChar '%' ++ bytes (a :: b :: s)
  | c :: s => String.utf8EncodeChar c ++ bytes s

def decode? (s : List Char) : Option (List Char) :=
  if s.contains '%' then (String.fromUTF8? ⟨(bytes s).toArray⟩).map String.toList else some s

end BotConsole.Http.Percent
