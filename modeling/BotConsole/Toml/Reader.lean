import BotConsole.Toml.Key
import BotConsole.Toml.Numeral
import BotConsole.Toml.Moment

namespace BotConsole.Toml.Reader

-- Past blanks, line breaks and comments. Control characters may not stand in a comment.
def gap? (inComment : Bool) : List Char → Option (List Char)
  | [] => some []
  | '\n' :: s => gap? false s
  | '\r' :: '\n' :: s => gap? false s
  | c :: s =>
    if inComment then (if isPlain c then gap? true s else none)
    else if isBlank c then gap? false s
    else if c = '#' then gap? true s
    else some (c :: s)

def lineEnd? (inComment : Bool) : List Char → Option (List Char)
  | [] => some []
  | '\n' :: s => some s
  | '\r' :: '\n' :: s => some s
  | c :: s =>
    if inComment then (if isPlain c then lineEnd? true s else none)
    else if isBlank c then lineEnd? false s
    else if c = '#' then lineEnd? true s
    else none

def isBare (c : Char) : Bool :=
  !(isBlank c || c == '\n' || c == '\r' || c == ',' || c == ']' || c == '\x7d' || c == '#')

-- A bare value as it is written, and what follows it. A date and a time of the day may have
-- a blank between them.
def bare (s : List Char) : List Char × List Char :=
  let word := s.takeWhile isBare
  match s.dropWhile isBare with
  | ' ' :: c :: rest =>
    if Moment.isDate word && c.isDigit then
      (word ++ ' ' :: (c :: rest).takeWhile isBare, (c :: rest).dropWhile isBare)
    else (word, ' ' :: c :: rest)
  | rest => (word, rest)

def word? (s : List Char) : Option Scalar :=
  if s = ['t', 'r', 'u', 'e'] then some (.bool true)
  else if s = ['f', 'a', 'l', 's', 'e'] then some (.bool false)
  else match Numeral.integer? s with
    | some i => some (.integer i)
    | none =>
      if Numeral.isFloat s then some (.float (String.ofList s))
      else if Moment.isMoment s then some (.moment (String.ofList s))
      else none

def scalar? (s : List Char) : Option (Scalar × List Char) :=
  match Quotes.opening? s with
  | some q =>
    (q.body? (s.drop q.delimiter.length)).map fun (text, rest) => (.text (String.ofList text), rest)
  | none =>
    let (word, rest) := bare s
    (word? word).map (·, rest)

mutual

-- The value at the front of a text. Two calls go to a pair of brackets and one to an item, so
-- fuel above the length of the text does not run out.
def tree? : Nat → List Char → Option (Tree × List Char)
  | 0, _ => none
  | _ + 1, [] => none
  | fuel + 1, c :: s =>
    if c = '[' then do
      let (items, rest) ← items? fuel (← gap? false s)
      some (.list items, rest)
    else if c = '\x7b' then do
      let (members, rest) ← members? fuel (← gap? false s)
      some (.inline members, rest)
    else (scalar? (c :: s)).map fun (value, rest) => (.scalar value, rest)

def items? : Nat → List Char → Option (List Tree × List Char)
  | 0, _ => none
  | _ + 1, ']' :: rest => some ([], rest)
  | fuel + 1, s => do
    let (t, rest) ← tree? fuel s
    match ← gap? false rest with
    | ',' :: rest =>
      let (ts, rest) ← items? fuel (← gap? false rest)
      some (t :: ts, rest)
    | ']' :: rest => some ([t], rest)
    | _ => none

def members? : Nat → List Char → Option (List (Path × Tree) × List Char)
  | 0, _ => none
  | _ + 1, '}' :: rest => some ([], rest)
  | fuel + 1, s => do
    let (path, t, rest) ← assignment? fuel s
    match ← gap? false rest with
    | ',' :: rest =>
      let (ms, rest) ← members? fuel (← gap? false rest)
      some ((path, t) :: ms, rest)
    | '}' :: rest => some ([(path, t)], rest)
    | _ => none

def assignment? : Nat → List Char → Option (Path × Tree × List Char)
  | 0, _ => none
  | fuel + 1, s => do
    match ← Key.path? s with
    | (path, '=' :: rest) =>
      let (t, rest) ← tree? fuel (rest.dropWhile isBlank)
      some (path, t, rest)
    | _ => none

end

end BotConsole.Toml.Reader
