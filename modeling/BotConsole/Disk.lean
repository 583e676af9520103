import BotConsole.Preference.Slot
import BotConsole.Text.Split

namespace BotConsole

-- A place in a tree of files: the names on the way to it from the root.
abbrev Place := List String

inductive DiskEntry where
  | file (content : String)
  | folder
  deriving DecidableEq, Inhabited

-- A tree of files, by the places where something stands. The root is always a folder.
abbrev Disk := List (Place × DiskEntry)

namespace Place

def toText (p : Place) : String :=
  if p.isEmpty then "/" else String.join (p.map ("/" ++ ·))

-- The folders on the way to a place, the root apart and the place included, from the top.
def ancestry : Place → List Place
  | [] => []
  | name :: rest => [name] :: (ancestry rest).map (name :: ·)

def child (p : Place) (name : String) : Place :=
  p ++ [name]

end Place

namespace Disk

def find? (d : Disk) (p : Place) : Option DiskEntry :=
  if p.isEmpty then some .folder else d.lookup p

def isFolder (d : Disk) (p : Place) : Bool :=
  d.find? p == some .folder

def isVacant (d : Disk) (p : Place) : Bool :=
  (d.find? p).isNone

def read? (d : Disk) (p : Place) : Option String :=
  match d.find? p with
  | some (.file content) => some content
  | _ => none

def put (d : Disk) (p : Place) (e : DiskEntry) : Disk :=
  (p, e) :: d.filter (·.1 != p)

-- Makes the folders that are missing on the way to a place, which becomes a folder itself;
-- none where a file is in the way.
def makeFolders? (d : Disk) (p : Place) : Option Disk :=
  p.ancestry.foldlM (fun d folder => match d.find? folder with
    | some .folder => some d
    | some (.file _) => none
    | none => some (d.put folder .folder)) d

def write? (d : Disk) (p : Place) (content : String) : Option Disk :=
  if d.isFolder p.dropLast && !d.isFolder p then some (d.put p (.file content)) else none

def fill (d : Disk) (p : Place) (content : String) : Disk :=
  (((d.makeFolders? p.dropLast).bind (·.write? p content))).getD d

def slot (d : Disk) (p : Place) : Preference.Slot :=
  match d.find? p with
  | some (.file content) => .text content
  | some .folder => .folder
  | none => if (d.makeFolders? p.dropLast).isSome then .vacant else .sealed

-- Every name on the way has to be that of a folder.
def step? (d : Disk) (p : Place) (name : String) : Option Place :=
  if !d.isFolder p then none
  else if name == "" || name == "." then some p
  else if name == ".." then some p.dropLast
  else some (p.child name)

-- The place that a path means, seen from a folder. Nothing needs to stand there yet.
def resolve? (d : Disk) (start : Place) (path : String) : Option Place :=
  let start := if path.toList.head? = some '/' then [] else start
  ((Text.splitOn '/' path.toList).map String.ofList).foldlM (step? d) start

def existing? (d : Disk) (start : Place) (path : String) : Option Place :=
  if path.isEmpty then none
  else (resolve? d start path).filter fun p => !d.isVacant p

def readPath? (d : Disk) (start : Place) (path : String) : Option String :=
  (existing? d start path).bind (read? d)

end Disk

end BotConsole
