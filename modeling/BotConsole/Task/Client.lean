import BotConsole.Http.Reason
import BotConsole.Http.Url
import BotConsole.Task.Status
import BotConsole.Text.Integer

namespace BotConsole.Task

structure Client where
  -- The address without slashes at its end.
  base : String
  template : String
  token : Option String
  timeout : Nat

-- The user of an address and the token of a client make a header each.
structure Request where
  url : Http.Url
  accept : String
  credentials : Option String
  authorization : Option String
  deriving DecidableEq

def Request.target (r : Request) : String :=
  r.url.target

-- What comes back: nothing at all, or a response, whose body may be cut short.
inductive Reply where
  | refused
  | response (code : Nat) (body : String) (isComplete : Bool)
  deriving Inhabited

namespace Client

def defaultTemplate : String := "/api/v1/system/tasks/\x7bid\x7d"

def trimSlashes (s : List Char) : List Char :=
  (s.reverse.dropWhile (· == '/')).reverse

def new (base template : String) (token : Option String) (timeout : Nat := 10) : Client :=
  ⟨String.ofList (trimSlashes base.toList), template, token, timeout⟩

-- The milliseconds after which a reply comes too late.
def deadline (c : Client) : Nat :=
  1000 * c.timeout

def mark : List Char := ['\x7b', 'i', 'd', '\x7d']

def path (template : List Char) (task : Int) : List Char :=
  match Text.replaceAll mark (Text.integerText task) template with
  | '/' :: rest => '/' :: rest
  | path => '/' :: path

def statusUrl (c : Client) (task : Int) : String :=
  c.base ++ String.ofList (path c.template.toList task)

def isHeaderChar (c : Char) : Bool :=
  c == '\t' || (0x20 ≤ c.toNat && c.toNat != 0x7F)

def authorization (c : Client) : Option String :=
  c.token.map fun token => "Bearer " ++ token

def isReachable (url : Http.Url) : Bool :=
  (url.scheme == "http" || url.scheme == "https") && url.toText.utf8ByteSize ≤ 65534 &&
    url.host.all fun host => !host.toList.any ['"', '`', '\x7b', '\x7d'].contains

def unusable (url : Http.Url) : Failure :=
  .ofTransport ("builder error for url (" ++ url.toText ++ ")")

-- The request for the status of a task; an address or a token that cannot be used fails before
-- anything is sent.
def request (c : Client) (task : Int) : Except Failure Request :=
  match Http.Url.ofText? (c.statusUrl task).toList with
  | none => .error (.ofTransport "builder error")
  | some url =>
    if url.host.isNone then .error (unusable url)
    else if c.token.any fun token => !token.toList.all isHeaderChar then
      .error (.ofTransport "builder error")
    else
      let (url, credentials) := url.withdrawUser
      if isReachable url then .ok ⟨url, "application/json", credentials, c.authorization⟩
      else .error (unusable url)

def bodyText (body : String) : List Char :=
  match body.toList with
  | '\ufeff' :: rest => rest
  | s => s

-- The answer to a failed request may carry a message of its own.
def read (c : Client) (task : Int) (url : Http.Url) : Reply → Except Failure Status
  | .refused => .error (.ofTransport ("error sending request for url (" ++ url.toText ++ ")"))
  | .response code body isComplete =>
    if !isComplete && Http.hasBody code then
      .error (.ofTransport
        ("error decoding response body for url (" ++ url.withoutFragment ++ ")"))
    else
      let text := if Http.hasBody code then bodyText body else []
      if Http.isSuccess code then Status.ofBody text
      else .error <| .ofTransport <| (Envelope.messageOf? text).getD
        ("HTTP " ++ Http.statusLine code ++ " from " ++ c.statusUrl task)

def fetch (c : Client) (task : Int) (reply : Reply) : Except Failure Status × Option Request :=
  match c.request task with
  | .error e => (.error e, none)
  | .ok request => (c.read task request.url reply, some request)

end Client

end BotConsole.Task
