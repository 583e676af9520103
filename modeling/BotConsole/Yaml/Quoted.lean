import BotConsole.Yaml.Folding
import BotConsole.Text.Hex

namespace BotConsole.Yaml.Quoted

def escape? : Char → Option Char
  | '0' => some '\x00'
  | 'a' => some '\x07'
  | 'b' => some '\x08'
  | 't' | '\t' => some '\t'
  | 'n' => some '\n'
  | 'v' => some '\x0b'
  | 'f' => some '\x0c'
  | 'r' => some '\r'
  | 'e' => some '\x1b'
  | ' ' => some ' '
  | '"' => some '"'
  | '/' => some '/'
  | '\\' => some '\\'
  | 'N' => some '\u0085'
  | '_' => some '\u00a0'
  | 'L' => some '\u2028'
  | 'P' => some '\u2029'
  | _ => none

def digitCount? : Char → Option Nat
  | 'x' => some 2
  | 'u' => some 4
  | 'U' => some 8
  | _ => none

def ofNumber? (n : Nat) : Option Char :=
  if n.isValidChar then some (Char.ofNat n) else none

def escaped? (c : Cursor) : Option (Char × Cursor) := do
  let letter ← c.head?
  let c := c.skip 1
  match digitCount? letter with
  | none => (escape? letter).map (·, c)
  | some n =>
    let digits := c.rest.take n
    if digits.length < n then none
    else do
      let char ← ofNumber? (← Text.hexValue? digits)
      some (char, c.skip n)

-- A run of text up to a blank, a line break or the closing quote, with the gap that an
-- escaped line break begins.
def run? (quote : Char) : Nat → Cursor → Option (List Char × Gap × Cursor)
  | 0, _ => none
  | fuel + 1, c =>
    match c.rest with
    | [] => some ([], .blanks [], c)
    | char :: rest =>
      let more (char : Char) (c : Cursor) : Option (List Char × Gap × Cursor) :=
        (run? quote fuel c).map fun (text, gap, c) => (char :: text, gap, c)
      if isBlank char || isBreak char then some ([], .blanks [], c)
      else if char = quote then
        if quote = '\'' && rest.head? = some quote then more quote (c.skip 2)
        else some ([], .blanks [], c)
      else if quote = '"' && char = '\\' then
        if rest.head?.any isBreak then some ([], .escaped, (c.skip 1).skipBreak)
        else do
          let (char, c) ← escaped? (c.skip 1)
          more char c
      else more char (c.skip 1)

def scan? (quote : Char) : Nat → List Char → Cursor → Option (List Char × Cursor)
  | 0, _, _ => none
  | fuel + 1, text, c => do
    if c.atDocumentMark || c.atEnd then none
    else
      let (run, gap, c) ← run? quote (c.rest.length + 1) c
      if c.looksAt quote then some (text ++ run, c.skip 1)
      else
        let (gap, c) ← gap.extend? 0 (c.rest.length + 1) c
        scan? quote fuel (text ++ run ++ gap.folded) c

end BotConsole.Yaml.Quoted
