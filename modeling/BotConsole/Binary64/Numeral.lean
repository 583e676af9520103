import BotConsole.Binary64
import BotConsole.Text.Integer

namespace BotConsole.Binary64

structure Numeral where
  whole : List Char
  places : List Char
  below : Bool
  exponent : List Char

namespace Numeral

def digits (s : List Char) : List Char × List Char :=
  (s.takeWhile Char.isDigit, s.dropWhile Char.isDigit)

def exponent? (s : List Char) : Option (Bool × List Char) :=
  let (below, s) := match s with
    | '-' :: s => (true, s)
    | '+' :: s => (false, s)
    | s => (false, s)
  if s.isEmpty || !s.all Char.isDigit then none else some (below, s)

def ofText? (s : List Char) : Option Numeral :=
  let (whole, s) := digits s
  let (places, s) := match s with
    | '.' :: s => digits s
    | s => ([], s)
  if whole.isEmpty && places.isEmpty then none
  else match s with
    | [] => some ⟨whole, places, false, []⟩
    | c :: s =>
      if c = 'e' || c = 'E' then
        (exponent? s).map fun (below, digits) => ⟨whole, places, below, digits⟩
      else none

def value? (d : Numeral) (negative : Bool) : Option Binary64 :=
  let exponent : Int := Nat.ofDigitChars 10 d.exponent 0
  let power := (if d.below then -exponent else exponent) - d.places.length
  ofDecimal? negative (Nat.ofDigitChars 10 (d.whole ++ d.places) 0) power

end Numeral

def ofText? : List Char → Option Binary64
  | '-' :: s => (Numeral.ofText? s).bind (·.value? true)
  | s => (Numeral.ofText? s).bind (·.value? false)

end BotConsole.Binary64
