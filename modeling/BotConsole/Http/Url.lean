import BotConsole.Http.Host
import BotConsole.Text.Base64

namespace BotConsole.Http

-- Who an address says is asking, percent-encoded. The password is not empty.
structure User where
  name : String
  password : Option String
  deriving DecidableEq, Inhabited

structure Url where
  scheme : String
  user : Option User
  -- The host with its port, which not every address has.
  host : Option String
  path : String
  query : Option String
  fragment : Option String
  deriving DecidableEq, Inhabited

namespace Url

-- Schemes whose addresses have a host, with the port that is not written out.
def knownSchemes : List (String × Nat) :=
  [("http", 80), ("https", 443), ("ws", 80), ("wss", 443), ("ftp", 21)]

def pathReserved : List Char := [' ', '"', '#', '<', '>', '?', '`', '\x7b', '\x7d']

def queryReserved : List Char := [' ', '"', '#', '<', '>', '\'']

def userReserved : List Char :=
  pathReserved ++ ['/', ':', ';', '=', '@', '[', '\\', ']', '^', '|']

def fragmentReserved : List Char := [' ', '"', '<', '>', '`']

def isSchemeChar (c : Char) : Bool :=
  c.isAlphanum || c == '+' || c == '-' || c == '.'

def scheme? (s : List Char) : Option (String × List Char) := do
  let (scheme, rest) ← Text.splitFirst ':' s
  if (scheme.head?.any Char.isAlpha) && scheme.all isSchemeChar then
    some (String.ofList (scheme.map Char.toLower), rest)
  else none

def isSlash (c : Char) : Bool :=
  c == '/' || c == '\\'

-- A dot, which can be written by its number.
def isDot (s : List Char) : Bool :=
  [".", "%2e"].contains (String.ofList (s.map Char.toLower))

def isTwoDots (s : List Char) : Bool :=
  ["..", ".%2e", "%2e.", "%2e%2e"].contains (String.ofList (s.map Char.toLower))

-- The segments already read stand in reverse. Two dots take back the one before them, and a path
-- that ends in dots ends in a slash.
def settle : List (List Char) → List (List Char) → List (List Char)
  | above, [] => above.reverse
  | above, segment :: rest =>
    let close (above : List (List Char)) := if rest.isEmpty then [] :: above else above
    if isTwoDots segment then settle (close (above.drop 1)) rest
    else if isDot segment then settle (close above) rest
    else settle (Percent.encode pathReserved segment :: above) rest

def settledPath (s : List Char) : List Char :=
  let s := s.map fun c => if c = '\\' then '/' else c
  let s := match s with
    | '/' :: rest => rest
    | s => s
  '/' :: Text.joinWith ['/'] (settle [] (Text.splitOn '/' s))

-- A port of up to 16 bits behind a colon; the usual one of the scheme is left out.
def port? (usual : Nat) (s : List Char) : Option (List Char) :=
  if !s.all Char.isDigit then none
  else if s.isEmpty then some []
  else
    let n := Nat.ofDigitChars 10 s 0
    if 65535 < n then none
    else if n = usual then some []
    else some (':' :: Nat.toDigits 10 n)

-- The host and, behind the first colon that no brackets enclose, the port.
def splitPort : Bool → List Char → List Char × List Char
  | _, [] => ([], [])
  | isEnclosed, c :: s =>
    if c = ':' && !isEnclosed then ([], s)
    else
      let (host, port) := splitPort (c == '[' || (isEnclosed && c != ']')) s
      (c :: host, port)

def user? (s : List Char) : Option User :=
  let (name, password) := (Text.splitFirst ':' s).getD (s, [])
  let encoded (s : List Char) := String.ofList (Percent.encode userReserved s)
  if name.isEmpty && password.isEmpty then none
  else some ⟨encoded name, if password.isEmpty then none else some (encoded password)⟩

def authority? (usual : Nat) (s : List Char) : Option (Option User × List Char) := do
  let (behind, before) := (Text.splitFirst '@' s.reverse).getD (s.reverse, [])
  let (host, port) := splitPort false behind.reverse
  some (user? before.reverse, (← host? host) ++ (← port? usual port))

-- The host of a scheme that does not say what hosts are, and the path.
def opaqueHost (s : List Char) : List Char × List Char :=
  match s with
  | '/' :: '/' :: rest =>
    let host := rest.takeWhile (· != '/')
    if host.isEmpty then ([], s) else (host, rest.dropWhile (· != '/'))
  | s => ([], s)

def splitTail (s : List Char) : List Char × Option (List Char) × Option (List Char) :=
  let (s, fragment) := match Text.splitFirst '#' s with
    | some (s, fragment) => (s, some fragment)
    | none => (s, none)
  match Text.splitFirst '?' s with
  | some (s, query) => (s, some query, fragment)
  | none => (s, none, fragment)

def text (s : Option (List Char)) (reserved : List Char) : Option String :=
  s.map fun s => String.ofList (Percent.encode reserved s)

-- The address of a text. Blanks and controls around it, and tabs and line breaks anywhere,
-- do not count.
def ofText? (s : List Char) : Option Url := do
  let outer (c : Char) : Bool := c.toNat ≤ 0x20
  let s := ((s.dropWhile outer).reverse.dropWhile outer).reverse
  let s := s.filter fun c => c != '\t' && c != '\n' && c != '\r'
  let (scheme, s) ← scheme? s
  let (s, query, fragment) := splitTail s
  match knownSchemes.lookup scheme with
  | some usual =>
    let s := s.dropWhile isSlash
    let (user, host) ← authority? usual (s.takeWhile (!isSlash ·))
    some {
      scheme, user
      host := some (String.ofList host)
      path := String.ofList (settledPath (s.dropWhile (!isSlash ·)))
      query := text query queryReserved
      fragment := text fragment fragmentReserved }
  | none =>
    let (host, path) := opaqueHost s
    some {
      scheme
      user := none
      host := if host.isEmpty then none else some (String.ofList (Percent.encode [] host))
      path := String.ofList (Percent.encode [] path)
      query := text query queryReserved
      fragment := text fragment fragmentReserved }

def target (u : Url) : String :=
  u.path ++ match u.query with
    | some q => "?" ++ q
    | none => ""

def authority (u : Url) : String :=
  let user := match u.user with
    | some ⟨name, password⟩ => name ++ password.elim "" (":" ++ ·) ++ "@"
    | none => ""
  u.host.elim "" ("//" ++ user ++ ·)

def withoutFragment (u : Url) : String :=
  u.scheme ++ ":" ++ u.authority ++ u.target

def toText (u : Url) : String :=
  u.withoutFragment ++ match u.fragment with
    | some f => "#" ++ f
    | none => ""

-- The address without its user, and the header that is sent instead. What spells no text stays.
def withdrawUser (u : Url) : Url × Option String :=
  match u.user.bind basic? with
  | some header => ({ u with user := none }, some header)
  | none => (u, none)
where
  basic? (user : User) : Option String := do
    let name ← Percent.decode? user.name.toList
    let password := user.password.bind fun password => Percent.decode? password.toList
    if name.isEmpty && password.isNone then none
    else
      let pair := name ++ ':' :: password.getD []
      some ("Basic " ++ String.ofList (Text.Base64.encode (pair.flatMap String.utf8EncodeChar)))

end Url

end BotConsole.Http
