import BotConsole.Yaml.Cursor

namespace BotConsole.Yaml

-- What stands between two runs of text in a scalar of several lines: blanks, or line breaks
-- of which the first is told apart.
inductive Gap where
  | blanks (text : List Char)
  | breaks (first later : List Char)

namespace Gap

-- A gap in which the first line break does not count.
def escaped : Gap := .breaks [] []

-- A single line feed is folded into a space; of several breaks the first is left out.
def folded : Gap → List Char
  | .blanks text => text
  | .breaks ['\n'] [] => [' ']
  | .breaks ['\n'] later => later
  | .breaks first later => first ++ later

def hasBreaks : Gap → Bool
  | .blanks _ => false
  | .breaks _ _ => true

-- The gap from here on, behind what was already seen of it. Blanks before a line break and
-- after one do not count. A tab is refused where it stands after a line break to the left of
-- `margin`.
def extend? (margin : Nat) : Nat → Gap → Cursor → Option (Gap × Cursor)
  | 0, _, _ => none
  | fuel + 1, gap, c =>
    match c.head? with
    | none => some (gap, c)
    | some char =>
      if isBlank char then
        match gap with
        | .blanks text => extend? margin fuel (.blanks (text ++ [char])) (c.skip 1)
        | .breaks _ _ =>
          if char = '\t' && c.column < margin then none
          else extend? margin fuel gap (c.skip 1)
      else if isBreak char then
        let (lineBreak, next) := c.takeBreak
        match gap with
        | .blanks _ => extend? margin fuel (.breaks lineBreak []) next
        | .breaks first later => extend? margin fuel (.breaks first (later ++ lineBreak)) next
      else some (gap, c)

end Gap

end BotConsole.Yaml
