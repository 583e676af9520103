namespace BotConsole.Text

variable {α : Type} [DecidableEq α]

-- The pieces between the separators: one more than there are separators.
def splitOn (sep : α) : List α → List (List α)
  | [] => [[]]
  | c :: s =>
    if c = sep then [] :: splitOn sep s
    else match splitOn sep s with
      | [] => [[c]]
      | piece :: pieces => (c :: piece) :: pieces

def splitFirst (sep : α) : List α → Option (List α × List α)
  | [] => none
  | c :: s =>
    if c = sep then some ([], s)
    else (splitFirst sep s).map fun (before, after) => (c :: before, after)

def joinWith (sep : List α) : List (List α) → List α
  | [] => []
  | [piece] => piece
  | piece :: rest => piece ++ sep ++ joinWith sep rest

omit [DecidableEq α] in
@[simp] theorem joinWith_cons_cons (sep piece next : List α) (rest : List (List α)) :
    joinWith sep (piece :: next :: rest) = piece ++ sep ++ joinWith sep (next :: rest) := rfl

theorem splitOn_ne_nil (sep : α) (s : List α) : splitOn sep s ≠ [] := by
  cases s with
  | nil => simp [splitOn]
  | cons c s =>
    simp only [splitOn]
    split
    · simp
    · split <;> simp

-- The text with every occurrence of `mark` replaced, read from the left without overlaps.
-- An empty mark occurs nowhere.
def replaceAll (mark new : List α) (s : List α) : List α :=
  go 0 s
where
  -- `skip` counts the characters left of an occurrence already replaced.
  go : Nat → List α → List α
  | _, [] => []
  | skip + 1, _ :: s => go skip s
  | 0, c :: s =>
    if mark ≠ [] ∧ mark.isPrefixOf (c :: s) then new ++ go (mark.length - 1) s
    else c :: go 0 s

def occurs (mark : List α) : List α → Bool
  | [] => mark.isEmpty
  | c :: s => mark.isPrefixOf (c :: s) || occurs mark s

end BotConsole.Text
