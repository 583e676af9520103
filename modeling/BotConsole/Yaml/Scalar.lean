import BotConsole.Binary64.Numeral
import BotConsole.Json.Value
import BotConsole.Text.Hex
import BotConsole.Yaml.Node

namespace BotConsole.Yaml

-- What a scalar means where any value may stand. A number that is not finite has no value.
inductive Meaning where
  | null
  | bool (value : Bool)
  | int (value : Int)
  | float (value : Option Binary64)
  | text (value : String)

namespace Scalar

def isNull (text : String) : Bool :=
  ["null", "Null", "NULL", "~"].contains text

def bool? (text : String) : Option Bool :=
  if ["true", "True", "TRUE"].contains text then some true
  else if ["false", "False", "FALSE"].contains text then some false
  else none

-- A number in the notation of a base; the digits go on to `f` for 15.
def inBase? (base : Nat) (s : List Char) : Option Nat :=
  if s.isEmpty then none
  else s.foldlM (fun n c => do
    let digit ← Text.hexDigit? c
    if digit < base then some (base * n + digit) else none) 0

-- A zero in front of further digits makes a text of them.
def isZeroPadded (s : List Char) : Bool :=
  let digits := match s with
    | '-' :: rest | '+' :: rest => rest
    | s => s
  1 < digits.length && digits.head? == some '0' && digits.all Char.isDigit

def magnitude? (s : List Char) : Option Nat :=
  match s with
  | '0' :: 'x' :: digits => inBase? 16 digits
  | '0' :: 'o' :: digits => inBase? 8 digits
  | '0' :: 'b' :: digits => inBase? 2 digits
  | s => inBase? 10 s

-- An integer with an optional sign. Beyond 128 bits a number is no integer.
def int? (s : List Char) : Option Int :=
  if isZeroPadded s then none
  else match s with
    | '-' :: digits => do
      let n ← magnitude? digits
      if n ≤ 1 <<< 127 then some (-(n : Int)) else none
    | '+' :: digits | digits => do
      let n ← magnitude? digits
      if n < 1 <<< 128 then some (n : Int) else none

def float? (s : List Char) : Option (Option Binary64) :=
  let unsigned := match s with
    | '+' :: rest => rest
    | s => s
  let named (names : List String) (s : List Char) : Bool := names.contains (String.ofList s)
  if named [".inf", ".Inf", ".INF"] unsigned || named ["-.inf", "-.Inf", "-.INF"] s ||
      named [".nan", ".NaN", ".NAN"] s then
    some none
  else if s.head? == some '+' && unsigned.head?.any ['+', '-'].contains then none
  else (Binary64.ofText? unsigned).map some

-- An integer keeps its value where it fits the signed or the unsigned 64-bit range; others
-- cannot be read.
def ofInt? (i : Int) : Option Meaning :=
  if -(1 <<< 63 : Nat) ≤ i ∧ i < (1 <<< 64 : Nat) then some (.int i) else none

def ofPlain? (text : String) : Option Meaning :=
  if text.isEmpty || isNull text then some .null
  else match bool? text with
    | some b => some (.bool b)
    | none =>
      match int? text.toList with
      | some i => ofInt? i
      | none =>
        if isZeroPadded text.toList then some (.text text)
        else match float? text.toList with
          | some x => some (.float x)
          | none => some (.text text)

def nullTag : String := "tag:yaml.org,2002:null"

def boolTag : String := "tag:yaml.org,2002:bool"

def intTag : String := "tag:yaml.org,2002:int"

def floatTag : String := "tag:yaml.org,2002:float"

-- A tag of the document's own. A value under one cannot be read.
def isLocal (tag : String) : Bool :=
  tag.toList.head? == some '!'

-- What a scalar means; none when its tag does not allow its text.
def meaning? (tag : Option String) (style : Style) (text : String) : Option Meaning :=
  match tag with
  | none => if style = .plain then ofPlain? text else some (.text text)
  | some tag =>
    if isLocal tag then none
    else if tag = nullTag then if isNull text then some .null else none
    else if tag = boolTag then (bool? text).map .bool
    else if tag = intTag then (int? text.toList).bind ofInt?
    else if tag = floatTag then (float? text.toList).map .float
    else some (.text text)

end Scalar

def Meaning.toValue : Meaning → Json.Value
  | .null | .float none => .null
  | .bool b => .bool b
  | .int i => .number (.int i)
  | .float (some x) => .number (.float x)
  | .text s => .text s

end BotConsole.Yaml
