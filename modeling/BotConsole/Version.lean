import BotConsole.Text.Integer
import BotConsole.Text.Split

namespace BotConsole

open Text

-- A version: the numbers between the dots, and what follows the first dash.
structure Version where
  segments : List Nat
  suffix : Option String
  deriving DecidableEq, Inhabited

namespace Version

-- The number of one segment. Digits alone that exceed the range give its last number, any
-- other text that is no number of the range gives zero.
def segmentValue (s : List Char) : Nat :=
  match unsigned64? s with
  | some n => n
  | none => if !s.isEmpty && s.all Char.isDigit then maxUnsigned64 else 0

def dropLetter : List Char → List Char
  | 'v' :: s => s
  | 'V' :: s => s
  | s => s

def ofChars (s : List Char) : Version :=
  let s := dropLetter s
  let (numbers, suffix) := match splitFirst '-' s with
    | some (numbers, suffix) => (numbers, some (String.ofList suffix))
    | none => (s, none)
  ⟨(splitOn '.' numbers).map segmentValue, suffix⟩

def parse (s : String) : Version :=
  ofChars s.toList

def toChars (v : Version) : List Char :=
  let numbers := joinWith ['.'] (v.segments.map (Nat.toDigits 10))
  match v.suffix with
  | none => numbers
  | some suffix => numbers ++ '-' :: suffix.toList

instance : ToString Version := ⟨fun v => String.ofList v.toChars⟩

-- The numbers in turn; the shorter list goes on with zeros.
def compareSegments : List Nat → List Nat → Ordering
  | [], [] => .eq
  | a :: as, [] => (compare a 0).then (compareSegments as [])
  | [], b :: bs => (compare 0 b).then (compareSegments [] bs)
  | a :: as, b :: bs => (compare a b).then (compareSegments as bs)

-- A version without a suffix stands above those with one.
def compareSuffix : Option String → Option String → Ordering
  | none, none => .eq
  | none, some _ => .gt
  | some _, none => .lt
  | some a, some b => compare a b

def compare (a b : Version) : Ordering :=
  (compareSegments a.segments b.segments).then (compareSuffix a.suffix b.suffix)

instance : Ord Version := ⟨Version.compare⟩

instance : BEq Version := ⟨fun a b => a.compare b == .eq⟩

-- The comparison of two values that may not be comparable; versions always are.
def compare? (a b : Version) : Option Ordering :=
  some (Ord.compare a b)

instance : LT Version := ⟨fun a b => a.compare? b = some .lt⟩

instance : LE Version := ⟨fun a b => a.compare? b = some .lt ∨ a.compare? b = some .eq⟩

instance (a b : Version) : Decidable (a < b) :=
  inferInstanceAs (Decidable (a.compare? b = some .lt))

instance (a b : Version) : Decidable (a ≤ b) :=
  inferInstanceAs (Decidable (a.compare? b = some .lt ∨ a.compare? b = some .eq))

-- The first text is the newer version; no version is newer or older than the empty text.
def isNewer (a b : String) : Bool :=
  !a.isEmpty && !b.isEmpty && (parse a).compare (parse b) == .gt

-- The texts from the oldest version to the newest, equal versions in the order given.
def sortTexts (texts : List String) : List String :=
  texts.mergeSort fun a b => (parse a).compare (parse b) != .gt

end Version

structure UpdateCheck where
  current : String
  latest : String
  deriving DecidableEq

namespace UpdateCheck

def isAvailable (u : UpdateCheck) : Bool :=
  Version.isNewer u.latest u.current

def build : String := "0.1.0"

def forBuild (latest : String) : UpdateCheck :=
  ⟨build, latest⟩

end UpdateCheck

end BotConsole
