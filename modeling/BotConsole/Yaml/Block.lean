import BotConsole.Yaml.Folding

namespace BotConsole.Yaml.Block

-- Which of the line breaks at the end of a block scalar count: none, the first, or all.
inductive Chomp where
  | strip
  | clip
  | keep
  deriving DecidableEq

def Chomp.ofChar? : Char → Option Chomp
  | '-' => some .strip
  | '+' => some .keep
  | _ => none

-- The indentation that a header may ask for, one digit other than zero.
def indentation? (c : Cursor) : Option (Option Nat × Cursor) :=
  match c.head? with
  | none => some (none, c)
  | some char =>
    if !char.isDigit then some (none, c)
    else if char = '0' then none
    else some (some (char.toNat - '0'.toNat), c.skip 1)

-- The header behind the sign of a block scalar: a sign for the line breaks at the end and a
-- digit for the indentation, in either order, both optional.
def header? (c : Cursor) : Option (Chomp × Option Nat × Cursor) := do
  match c.head?.bind Chomp.ofChar? with
  | some chomp =>
    let (indentation, c) ← indentation? (c.skip 1)
    some (chomp, indentation, ← c.finishLine?)
  | none =>
    let (indentation, c) ← indentation? c
    match c.head?.bind Chomp.ofChar? with
    | some chomp => some (chomp, indentation, ← (c.skip 1).finishLine?)
    | none => some (.clip, indentation, ← c.finishLine?)

-- The empty lines from here on, with the widest indentation among them. Where the margin is
-- not known yet every space belongs to the indentation, and a tab cannot.
def emptyLines? (margin : Option Nat) :
    Nat → List Char → Nat → Cursor → Option (List Char × Nat × Cursor)
  | 0, _, _, _ => none
  | fuel + 1, breaks, widest, c =>
    let spaces := (c.rest.takeWhile (· == ' ')).length
    let c := c.skip <| match margin with
      | none => spaces
      | some m => min spaces (m - c.column)
    let widest := max widest c.column
    let inMargin := match margin with
      | none => true
      | some m => c.column < m
    if inMargin && c.looksAt '\t' then none
    else if c.atBreak then
      let (lineBreak, c) := c.takeBreak
      emptyLines? margin fuel (breaks ++ lineBreak) widest c
    else some (breaks, widest, c)

-- The lines of a scalar behind the text and the line breaks already read. Breaks are folded
-- only between two lines of which neither begins with a blank.
def lines? (folded : Bool) (margin : Nat) : Nat → List Char → List Char → List Char → Bool →
    Cursor → Option (List Char × List Char × List Char × Cursor)
  | 0, _, _, _, _, _ => none
  | fuel + 1, text, first, later, afterBlank, c => do
    if c.column != margin || c.atEnd then some (text, first, later, c)
    else
      let blank := c.atBlank
      let gap := if folded && !afterBlank && !blank then (Gap.breaks first later).folded
        else first ++ later
      let (line, c) := c.takeWhile fun char => !isBreak char
      let (first, c) := c.takeBreak
      let (later, _, c) ← emptyLines? (some margin) (c.rest.length + 1) [] 0 c
      lines? folded margin fuel (text ++ gap ++ line) first later blank c

-- The scalar behind its sign, in a collection with the given indentation; -1 stands for none.
def scan? (folded : Bool) (indent : Int) (c : Cursor) : Option (List Char × Cursor) := do
  let (chomp, indentation, c) ← header? c
  let known := indentation.map fun i => (max indent 0).toNat + i
  let (later, widest, c) ← emptyLines? known (c.rest.length + 1) [] 0 c
  let margin := known.getD (max (max widest (indent + 1).toNat) 1)
  let (text, first, later, c) ← lines? folded margin (c.rest.length + 1) [] [] later false c
  some (match chomp with
    | .strip => (text, c)
    | .clip => (text ++ first, c)
    | .keep => (text ++ first ++ later, c))

end BotConsole.Yaml.Block
