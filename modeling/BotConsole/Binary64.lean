namespace BotConsole

-- A finite number of the IEEE format binary64, `mantissa * 2 ^ exponent` with a sign. Numbers
-- are kept in their one normal form: `mantissa < 2 ^ 53`, and `2 ^ 52 ≤ mantissa` unless the
-- exponent is the least one, -1074.
structure Binary64 where
  negative : Bool
  mantissa : Nat
  exponent : Int
  deriving DecidableEq, Inhabited

namespace Binary64

def zero : Binary64 := ⟨false, 0, -1074⟩

def neg (x : Binary64) : Binary64 :=
  { x with negative := !x.negative }

def isZero (x : Binary64) : Bool :=
  x.mantissa == 0

def roundedQuotient (num den : Nat) : Nat :=
  let floor := num / den
  let rest := 2 * (num % den)
  if rest < den then floor
  else if den < rest then floor + 1
  else if floor % 2 == 0 then floor else floor + 1

def shifted (num den : Nat) (shift : Int) : Nat × Nat :=
  if 0 ≤ shift then (num <<< shift.toNat, den) else (num, den <<< (-shift).toNat)

-- The number nearest to `num / den`, halves to the even mantissa; none when that is beyond
-- the largest finite number. The denominator is positive.
def ofQuotient? (negative : Bool) (num den : Nat) : Option Binary64 :=
  if num == 0 then some { zero with negative }
  else
    -- 2 ^ (guess - 1) < num / den < 2 ^ (guess + 1)
    let guess : Int := (Nat.log2 num : Int) - Nat.log2 den
    let (scaledNum, scaledDen) := shifted num den (-guess)
    let magnitude := if scaledDen ≤ scaledNum then guess else guess - 1
    let exponent := max (magnitude - 52) (-1074)
    let (n, d) := shifted num den (-exponent)
    let mantissa := roundedQuotient n d
    let (mantissa, exponent) :=
      if mantissa == 1 <<< 53 then (1 <<< 52, exponent + 1) else (mantissa, exponent)
    if 971 < exponent then none else some ⟨negative, mantissa, exponent⟩

def fraction (x : Binary64) : Nat × Nat :=
  shifted x.mantissa 1 x.exponent

def ofNat? (n : Nat) : Option Binary64 :=
  ofQuotient? false n 1

def mul? (x y : Binary64) : Option Binary64 :=
  let (a, b) := x.fraction
  let (c, d) := y.fraction
  ofQuotient? (x.negative != y.negative) (a * c) (b * d)

def div? (x y : Binary64) : Option Binary64 :=
  let (a, b) := x.fraction
  let (c, d) := y.fraction
  ofQuotient? (x.negative != y.negative) (a * d) (b * c)

-- The number nearest to `digits * 10 ^ power`; none beyond the largest finite number. Powers
-- so large or small that the outcome is plain are not worked out.
def ofDecimal? (negative : Bool) (digits : Nat) (power : Int) : Option Binary64 :=
  if digits == 0 then some { zero with negative }
  else
    let places : Int := (Nat.toDigits 10 digits).length
    if 400 < places + power then none
    else if places + power < -400 then some { zero with negative }
    else if 0 ≤ power then ofQuotient? negative (digits * Nat.pow 10 power.toNat) 1
    else ofQuotient? negative digits (Nat.pow 10 (-power).toNat)

def isIntegral (x : Binary64) : Bool :=
  let (n, d) := x.fraction
  n % d == 0

end Binary64

end BotConsole
