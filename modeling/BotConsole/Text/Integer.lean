namespace BotConsole.Text

def digitValue (c : Char) : Nat :=
  c.toNat - '0'.toNat

-- Appends decimal digits to a number; refused where the result exceeds the limit or a
-- character is no digit.
def appendDigits? (limit : Nat) : Nat → List Char → Option Nat
  | n, [] => some n
  | n, c :: cs =>
    if c.isDigit ∧ 10 * n + digitValue c ≤ limit then
      appendDigits? limit (10 * n + digitValue c) cs
    else none

def natural? (limit : Nat) (s : List Char) : Option Nat :=
  if s.isEmpty then none else appendDigits? limit 0 s

def maxUnsigned64 : Nat := 1 <<< 64 - 1

-- A number of the unsigned 64-bit range; a plus sign may stand in front.
def unsigned64? : List Char → Option Nat
  | '+' :: s => natural? maxUnsigned64 s
  | s => natural? maxUnsigned64 s

def signed64? : List Char → Option Int
  | '-' :: s => (natural? (1 <<< 63) s).map fun n => -(n : Int)
  | '+' :: s => (natural? (1 <<< 63 - 1) s).map Int.ofNat
  | s => (natural? (1 <<< 63 - 1) s).map Int.ofNat

def integerText : Int → List Char
  | .ofNat n => Nat.toDigits 10 n
  | .negSucc n => '-' :: Nat.toDigits 10 (n + 1)

end BotConsole.Text
