import BotConsole.Json.Value

namespace BotConsole.Json.Writer

def hexChar (n : Nat) : Char :=
  Nat.digitChar n

def escape (c : Char) : List Char :=
  match c with
  | '"' => ['\\', '"']
  | '\\' => ['\\', '\\']
  | '\n' => ['\\', 'n']
  | '\r' => ['\\', 'r']
  | '\t' => ['\\', 't']
  | '\x08' => ['\\', 'b']
  | '\x0c' => ['\\', 'f']
  | c =>
    if c.toNat < 0x20 then
      ['\\', 'u', '0', '0', hexChar (c.toNat / 16), hexChar (c.toNat % 16)]
    else [c]

def text (s : String) : List Char :=
  '"' :: s.toList.flatMap escape ++ ['"']

def scalar : Value → List Char
  | .null => ['n', 'u', 'l', 'l']
  | .bool true => ['t', 'r', 'u', 'e']
  | .bool false => ['f', 'a', 'l', 's', 'e']
  | .number n => n.toChars
  | .text s => text s
  | _ => []

mutual

def compact : Value → List Char
  | .list [] => ['[', ']']
  | .list (v :: vs) => '[' :: compact v ++ compactItems vs ++ [']']
  | .object [] => ['{', '}']
  | .object ((k, v) :: ms) =>
    '{' :: text k ++ ':' :: compact v ++ compactMembers ms ++ ['}']
  | v => scalar v

def compactItems : List Value → List Char
  | [] => []
  | v :: vs => ',' :: compact v ++ compactItems vs

def compactMembers : List (String × Value) → List Char
  | [] => []
  | (k, v) :: ms => ',' :: text k ++ ':' :: compact v ++ compactMembers ms

end

def newline (depth : Nat) : List Char :=
  '\n' :: List.replicate (2 * depth) ' '

mutual

-- The value with every item and member on a line of its own, two columns further in than
-- its container; empty containers stay on one line.
def indented (depth : Nat) : Value → List Char
  | .list [] => ['[', ']']
  | .list (v :: vs) =>
    '[' :: newline (depth + 1) ++ indented (depth + 1) v ++ indentedItems (depth + 1) vs ++
      newline depth ++ [']']
  | .object [] => ['{', '}']
  | .object ((k, v) :: ms) =>
    '{' :: newline (depth + 1) ++ text k ++ ':' :: ' ' :: indented (depth + 1) v ++
      indentedMembers (depth + 1) ms ++ newline depth ++ ['}']
  | v => scalar v

def indentedItems (depth : Nat) : List Value → List Char
  | [] => []
  | v :: vs => ',' :: newline depth ++ indented depth v ++ indentedItems depth vs

def indentedMembers (depth : Nat) : List (String × Value) → List Char
  | [] => []
  | (k, v) :: ms =>
    ',' :: newline depth ++ text k ++ ':' :: ' ' :: indented depth v ++
      indentedMembers depth ms

end

end BotConsole.Json.Writer

namespace BotConsole.Json.Value

def compact (v : Value) : String :=
  String.ofList (Writer.compact v)

def pretty (v : Value) : String :=
  String.ofList (Writer.indented 0 v)

end BotConsole.Json.Value
