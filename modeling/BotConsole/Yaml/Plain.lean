import BotConsole.Yaml.Folding

namespace BotConsole.Yaml.Plain

def flowIndicators : List Char := [',', '[', ']', '{', '}']

def indicators : List Char :=
  ['-', '?', ':', ',', '[', ']', '{', '}', '#', '&', '*', '!', '|', '>', '\'', '"', '%', '@', '`']

def startsAt (inFlow : Bool) (c : Cursor) : Bool :=
  match c.rest with
  | [] => false
  | char :: rest =>
    if !(isBlank char || isBreak char || indicators.contains char) then true
    else if char = '-' then !rest.head?.any isBlank
    else if char = '?' || char = ':' then !inFlow && !c.endsWordAt 1
    else false

-- A run of text without blanks. In a flow collection a colon must not stand before one of
-- its indicators.
def run? (inFlow : Bool) : List Char → Option (List Char)
  | [] => some []
  | char :: rest =>
    let next := rest.head?
    if isBlank char || isBreak char then some []
    else if char = ':' && inFlow && next.any (fun n => n = '?' || flowIndicators.contains n) then
      none
    else if char = ':' && !next.any (fun n => !isBlank n && !isBreak n) then some []
    else if inFlow && flowIndicators.contains char then some []
    else (run? inFlow rest).map (char :: ·)

-- The scalar from here on, behind the text and the gap already read, with the place behind
-- its last gap, and whether that gap has line breaks. Outside of flow collections it ends
-- before a line that is not indented to the margin.
def scan? (inFlow : Bool) (margin : Nat) :
    Nat → List Char → Gap → Cursor → Option (List Char × Cursor × Bool)
  | 0, _, _, _ => none
  | fuel + 1, text, gap, c => do
    if c.atDocumentMark || c.looksAt '#' then some (text, c, gap.hasBreaks)
    else
      let run ← run? inFlow c.rest
      let (text, before) := if run.isEmpty then (text, gap) else
        (text ++ gap.folded ++ run, .blanks [])
      let c := c.skip run.length
      if !(c.atBlank || c.atBreak) then some (text, c, before.hasBreaks)
      else
        let (gap, c) ← before.extend? margin (c.rest.length + 1) c
        if !inFlow && c.column < margin then some (text, c, gap.hasBreaks)
        else scan? inFlow margin fuel text gap c

end BotConsole.Yaml.Plain
