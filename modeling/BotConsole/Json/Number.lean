import BotConsole.Binary64.Shortest

namespace BotConsole.Json

-- A number of a JSON document: an integer of the signed or the unsigned 64-bit range, or a
-- binary64 number.
inductive Number where
  | int (value : Int)
  | float (value : Binary64)
  deriving DecidableEq, Inhabited

structure Literal where
  negative : Bool
  whole : List Char
  fraction : Option (List Char)
  exponent : Option (Bool × List Char)

namespace Number

def maxUnsigned : Nat := 1 <<< 64 - 1

def maxExponent : Int := (1 <<< 31 : Nat) - 1

-- Appends digits to a number as long as the result stays in the unsigned 64-bit range; the
-- digits from the first one that does not fit are given back.
def accumulate (n : Nat) : List Char → Nat × List Char
  | [] => (n, [])
  | c :: cs =>
    let next := 10 * n + (c.toNat - '0'.toNat)
    if next ≤ maxUnsigned then accumulate next cs else (n, c :: cs)

def maxPower : Nat := 308

def powerOfTen (k : Nat) : Binary64 :=
  (Binary64.ofNat? (Nat.pow 10 k)).getD .zero

-- `x / 10 ^ power`, divided by the largest power of ten as often as it fits, each quotient
-- rounded.
def shrink? (x : Binary64) (power : Nat) : Option Binary64 :=
  if x.isZero then some x
  else if _h : power ≤ maxPower then x.div? (powerOfTen power)
  else do
    let y ← x.div? (powerOfTen maxPower)
    shrink? y (power - maxPower)
termination_by power
decreasing_by simp only [maxPower] at *; omega

def scale? (x : Binary64) (power : Int) : Option Binary64 :=
  if x.isZero then some x
  else if power < 0 then shrink? x (-power).toNat
  else if power ≤ maxPower then x.mul? (powerOfTen power.toNat)
  else none

def signed (negative : Bool) (x : Binary64) : Binary64 :=
  if negative then x.neg else x

-- An integer that fits stays an integer, zero with a minus sign excepted.
def ofInteger (negative : Bool) (n : Nat) : Option Number :=
  if !negative then some (.int n)
  else if 0 < n && n ≤ 1 <<< 63 then some (.int (-n))
  else (Binary64.ofNat? n).map fun x => .float x.neg

-- The number of a literal; none beyond the largest finite number. A literal with a point, an
-- exponent or too many digits is read from the leading digits that fit into 64 bits: further
-- digits of the whole part count as zeros, further digits of the fraction not at all.
def ofLiteral? (l : Literal) : Option Number :=
  let (whole, dropped) := accumulate 0 l.whole
  if dropped.isEmpty && l.fraction.isNone && l.exponent.isNone then ofInteger l.negative whole
  else
    let fraction := l.fraction.getD []
    let (significand, rest) := accumulate whole fraction
    let start : Int := dropped.length - (fraction.length - rest.length : Nat)
    let float (power : Int) : Option Number := do
      let x ← Binary64.ofNat? significand
      let y ← scale? x power
      some (.float (signed l.negative y))
    match l.exponent with
    | none => float start
    | some (below, digits) =>
      let e : Int := Nat.ofDigitChars 10 digits 0
      if maxExponent < e then
        if significand != 0 && !below then none
        else some (.float (signed l.negative .zero))
      else if below then float (max (start - e) (-maxExponent - 1))
      else float (min (start + e) maxExponent)

def isWhole : Number → Bool
  | .int _ => true
  | .float x => x.isIntegral

def toChars : Number → List Char
  | .int (.ofNat n) => Nat.toDigits 10 n
  | .int (.negSucc n) => '-' :: Nat.toDigits 10 (n + 1)
  | .float x => x.toChars

end Number

end BotConsole.Json
