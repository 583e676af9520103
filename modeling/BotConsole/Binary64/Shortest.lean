import BotConsole.Binary64

namespace BotConsole.Binary64

structure Decimal where
  digits : Nat
  power : Int
  deriving DecidableEq

private def compareDecimal (n d : Nat) (x : Decimal) : Ordering :=
  if 0 ≤ x.power then compare n (x.digits * Nat.pow 10 x.power.toNat * d)
  else compare (n * Nat.pow 10 (-x.power).toNat) (x.digits * d)

-- The real numbers that round to a positive number: those between the midpoints to its
-- neighbours, the midpoints themselves only when the mantissa is even.
private structure Neighbourhood where
  low : Nat × Nat
  high : Nat × Nat
  closed : Bool

private def neighbourhood (x : Binary64) : Neighbourhood :=
  -- below a power of two the next number is only half as far
  let below := if x.mantissa == 1 <<< 52 && x.exponent != -1074 then 1 else 2
  { low := shifted (4 * x.mantissa - below) 1 (x.exponent - 2)
    high := shifted (4 * x.mantissa + 2) 1 (x.exponent - 2)
    closed := x.mantissa % 2 == 0 }

private def Neighbourhood.contains (b : Neighbourhood) (x : Decimal) : Bool :=
  (compareDecimal b.low.1 b.low.2 x).isLT && (compareDecimal b.high.1 b.high.2 x).isGT ||
    b.closed && ((compareDecimal b.low.1 b.low.2 x).isEq ||
      (compareDecimal b.high.1 b.high.2 x).isEq)

private def wholeUnits (n d : Nat) (power : Int) : Nat :=
  if 0 ≤ power then n / (d * Nat.pow 10 power.toNat) else n * Nat.pow 10 (-power).toNat / d

-- The number of places of the whole part of `n / d`, counted down through zero for numbers
-- below one: 10 ^ (places - 1) ≤ n / d < 10 ^ places.
private def leadingPlaces (n d : Nat) : Int :=
  let guess : Int := (Nat.toDigits 10 n).length - (Nat.toDigits 10 d).length
  if (compareDecimal n d ⟨1, guess⟩).isLT then guess else guess + 1

private def onGrid? (n d : Nat) (b : Neighbourhood) (power : Int) : Option Decimal :=
  let floor : Decimal := ⟨wholeUnits n d power, power⟩
  let ceil : Decimal := ⟨floor.digits + 1, power⟩
  match b.contains floor, b.contains ceil with
  | false, false => none
  | true, false => some floor
  | false, true => some ceil
  | true, true =>
    -- the middle between the two is an odd multiple of half a unit
    let middle : Decimal := ⟨10 * floor.digits + 5, power - 1⟩
    match compareDecimal n d middle with
    | .lt => some floor
    | .gt => some ceil
    | .eq => if floor.digits % 2 == 0 then some floor else some ceil

private def stripZeros : Nat → Decimal → Decimal
  | 0, x => x
  | fuel + 1, x =>
    if x.digits != 0 && x.digits % 10 == 0 then stripZeros fuel ⟨x.digits / 10, x.power + 1⟩
    else x

-- The decimal number with the fewest digits that rounds to `x`, and of those the closest one.
-- Seventeen digits are always enough.
def shortest (x : Binary64) : Decimal :=
  if x.mantissa == 0 then ⟨0, 0⟩
  else
    let (n, d) := x.fraction
    let b := neighbourhood x
    let places := leadingPlaces n d
    let found := (List.range 17).findSome? fun k : Nat =>
      onGrid? n d b (places - 1 - k)
    stripZeros 17 (found.getD ⟨wholeUnits n d (places - 17), places - 17⟩)

-- The text of a number: the fewest digits that read back, written out from 1e-5 up to below
-- 1e16 with at least one place after the point, and with an exponent outside that range.
def toChars (x : Binary64) : List Char :=
  let sign := if x.negative then ['-'] else []
  if x.mantissa == 0 then sign ++ ['0', '.', '0']
  else
    let s := shortest x
    let digits := Nat.toDigits 10 s.digits
    let places : Int := digits.length + s.power
    sign ++
      if 0 ≤ s.power && places ≤ 16 then
        digits ++ List.replicate s.power.toNat '0' ++ ['.', '0']
      else if 0 < places && places ≤ 16 then
        digits.take places.toNat ++ '.' :: digits.drop places.toNat
      else if -5 < places && places ≤ 0 then
        ['0', '.'] ++ List.replicate (-places).toNat '0' ++ digits
      else
        let point := match digits with
          | [] => []
          | [c] => [c]
          | c :: rest => c :: '.' :: rest
        let power := places - 1
        point ++ 'e' :: (if power < 0 then '-' else '+') :: Nat.toDigits 10 power.natAbs

end BotConsole.Binary64
