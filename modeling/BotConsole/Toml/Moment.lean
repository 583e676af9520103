import BotConsole.Text.Split

namespace BotConsole.Toml.Moment

def digits? (count : Nat) (s : List Char) : Option Nat :=
  if s.length = count ∧ s.all Char.isDigit then some (Nat.ofDigitChars 10 s 0) else none

def isLeapYear (year : Nat) : Bool :=
  year % 4 == 0 && (year % 100 != 0 || year % 400 == 0)

def daysIn (year month : Nat) : Nat :=
  if month = 2 then (if isLeapYear year then 29 else 28)
  else if month = 4 ∨ month = 6 ∨ month = 9 ∨ month = 11 then 30
  else 31

def isDate (s : List Char) : Bool :=
  match Text.splitOn '-' s with
  | [year, month, day] =>
    match digits? 4 year, digits? 2 month, digits? 2 day with
    | some year, some month, some day =>
      1 ≤ month && month ≤ 12 && 1 ≤ day && day ≤ daysIn year month
    | _, _, _ => false
  | _ => false

def isHour (s : List Char) : Bool :=
  (digits? 2 s).any (· ≤ 23)

def isMinute (s : List Char) : Bool :=
  (digits? 2 s).any (· ≤ 59)

-- Seconds, which a leap second may bring to sixty, with or without a fraction.
def isSecond (s : List Char) : Bool :=
  match Text.splitFirst '.' s with
  | none => (digits? 2 s).any (· ≤ 60)
  | some (whole, places) =>
    (digits? 2 whole).any (· ≤ 60) && !places.isEmpty && places.all Char.isDigit

def isTime (s : List Char) : Bool :=
  match Text.splitOn ':' s with
  | [hour, minute] => isHour hour && isMinute minute
  | [hour, minute, second] => isHour hour && isMinute minute && isSecond second
  | _ => false

def isOffset (s : List Char) : Bool :=
  match Text.splitOn ':' s with
  | [hour, minute] => isHour hour && isMinute minute
  | _ => false

def isZonedTime (s : List Char) : Bool :=
  match s.getLast? with
  | none => false
  | some last =>
    if last = 'Z' ∨ last = 'z' then isTime s.dropLast
    else match Text.splitFirst '+' s with
      | some (time, offset) => isTime time && isOffset offset
      | none =>
        match Text.splitFirst '-' s with
        | some (time, offset) => isTime time && isOffset offset
        | none => isTime s

def isSeparator (c : Char) : Bool :=
  c == 'T' || c == 't' || c == ' '

-- A date, a time of the day, or both with a letter or a blank between them.
def isMoment (s : List Char) : Bool :=
  match s.drop 10 with
  | [] => isDate s || isTime s
  | c :: time =>
    if isSeparator c then isDate (s.take 10) && isZonedTime time else isTime s

end BotConsole.Toml.Moment
