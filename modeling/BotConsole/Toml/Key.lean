import BotConsole.Toml.Quoted
import BotConsole.Toml.Value

namespace BotConsole.Toml.Key

def isBare (c : Char) : Bool :=
  c.isAlphanum || c == '_' || c == '-'

def write (name : String) : List Char :=
  let s := name.toList
  if !s.isEmpty && s.all isBare then s else (Quotes.forName s).enclose s

def read? (s : List Char) : Option (String × List Char) :=
  match Quotes.opening? s with
  | some q =>
    if q.isLong then none
    else (q.body? (s.drop 1)).map fun (name, rest) => (String.ofList name, rest)
  | none =>
    match s.takeWhile isBare with
    | [] => none
    | name => some (String.ofList name, s.dropWhile isBare)

-- Names with points between them, and what follows. Every name uses up a character, so fuel
-- above the length of the text does not run out.
def names? : Nat → List Char → Option (Path × List Char)
  | 0, _ => none
  | fuel + 1, s => do
    let (name, rest) ← read? s
    match rest.dropWhile isBlank with
    | '.' :: rest =>
      let (names, rest) ← names? fuel (rest.dropWhile isBlank)
      some (name :: names, rest)
    | rest => some ([name], rest)

-- A path, up to the first character that is neither part of it nor blank.
def path? (s : List Char) : Option (Path × List Char) :=
  names? (s.length + 1) s

end BotConsole.Toml.Key
