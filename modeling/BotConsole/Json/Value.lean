import BotConsole.Json.Number
import BotConsole.Dict

namespace BotConsole.Json

-- A JSON value. The members of an object stand in ascending order of their keys, each key
-- once, wherever a value comes from a document.
inductive Value where
  | null
  | bool (value : Bool)
  | number (value : Number)
  | text (value : String)
  | list (items : List Value)
  | object (members : List (String × Value))
  deriving Inhabited

-- A JSON document as it is written, with its members in order and repeated ones kept. A
-- number beyond binary64 and a text with half a surrogate pair are well formed, but have no
-- value.
inductive Tree where
  | null
  | bool (value : Bool)
  | number (value : Option Number)
  | text (value : Option String)
  | list (items : List Tree)
  | object (members : List (Option String × Tree))
  deriving Inhabited

namespace Tree

mutual

def isEqual : Tree → Tree → Bool
  | .null, .null => true
  | .bool a, .bool b => a == b
  | .number a, .number b => a == b
  | .text a, .text b => a == b
  | .list as, .list bs => areEqual as bs
  | .object as, .object bs => haveEqual as bs
  | _, _ => false

def areEqual : List Tree → List Tree → Bool
  | [], [] => true
  | a :: as, b :: bs => isEqual a b && areEqual as bs
  | _, _ => false

def haveEqual : List (Option String × Tree) → List (Option String × Tree) → Bool
  | [], [] => true
  | (k, a) :: as, (l, b) :: bs => k == l && isEqual a b && haveEqual as bs
  | _, _ => false

end

mutual

theorem isEqual_iff : (a b : Tree) → (isEqual a b = true ↔ a = b)
  | .null, b => by cases b <;> simp [isEqual]
  | .bool _, b => by cases b <;> simp [isEqual]
  | .number _, b => by cases b <;> simp [isEqual]
  | .text _, b => by cases b <;> simp [isEqual]
  | .list as, b => by cases b <;> simp [isEqual, areEqual_iff as]
  | .object as, b => by cases b <;> simp [isEqual, haveEqual_iff as]

theorem areEqual_iff : (as bs : List Tree) → (areEqual as bs = true ↔ as = bs)
  | [], bs => by cases bs <;> simp [areEqual]
  | a :: as, bs => by cases bs <;> simp [areEqual, isEqual_iff a, areEqual_iff as]

theorem haveEqual_iff :
    (as bs : List (Option String × Tree)) → (haveEqual as bs = true ↔ as = bs)
  | [], bs => by cases bs <;> simp [haveEqual]
  | (k, a) :: as, bs => by
    cases bs <;> simp [haveEqual, isEqual_iff a, haveEqual_iff as, Prod.ext_iff]

end

instance : DecidableEq Tree := fun a b => decidable_of_iff _ (isEqual_iff a b)

end Tree

namespace Value

mutual

def Ordered : Value → Prop
  | .list items => OrderedItems items
  | .object members => Ascending members ∧ OrderedMembers members
  | _ => True

def OrderedItems : List Value → Prop
  | [] => True
  | v :: items => Ordered v ∧ OrderedItems items

def OrderedMembers : List (String × Value) → Prop
  | [] => True
  | (_, v) :: members => Ordered v ∧ OrderedMembers members

end

def text? : Value → Option String
  | .text s => some s
  | _ => none

def member? (key : String) : Value → Option Value
  | .object members => members.lookup key
  | _ => none

mutual

def toTree : Value → Tree
  | .null => .null
  | .bool b => .bool b
  | .number n => .number (some n)
  | .text s => .text (some s)
  | .list items => .list (toTrees items)
  | .object members => .object (toMembers members)

def toTrees : List Value → List Tree
  | [] => []
  | v :: items => toTree v :: toTrees items

def toMembers : List (String × Value) → List (Option String × Tree)
  | [] => []
  | (k, v) :: members => (some k, toTree v) :: toMembers members

end

mutual

theorem toTree_inj : (v w : Value) → (toTree v = toTree w ↔ v = w)
  | .null, w => by cases w <;> simp [toTree]
  | .bool _, w => by cases w <;> simp [toTree]
  | .number _, w => by cases w <;> simp [toTree]
  | .text _, w => by cases w <;> simp [toTree]
  | .list items, w => by cases w <;> simp [toTree, toTrees_inj items]
  | .object members, w => by cases w <;> simp [toTree, toMembers_inj members]

theorem toTrees_inj : (vs ws : List Value) → (toTrees vs = toTrees ws ↔ vs = ws)
  | [], ws => by cases ws <;> simp [toTrees]
  | v :: vs, ws => by cases ws <;> simp [toTrees, toTree_inj v, toTrees_inj vs]

theorem toMembers_inj :
    (vs ws : List (String × Value)) → (toMembers vs = toMembers ws ↔ vs = ws)
  | [], ws => by cases ws <;> simp [toMembers]
  | (k, v) :: vs, ws => by
    cases ws <;> simp [toMembers, toTree_inj v, toMembers_inj vs, Prod.ext_iff]

end

instance : DecidableEq Value := fun v w => decidable_of_iff _ (toTree_inj v w)

end Value

namespace Tree

mutual

def value? : Tree → Option Value
  | .null => some .null
  | .bool b => some (.bool b)
  | .number n => n.map .number
  | .text s => s.map .text
  | .list items => (values? items).map .list
  | .object members => (members? members).map fun ms => .object (putAll ms [])

def values? : List Tree → Option (List Value)
  | [] => some []
  | t :: items => do
    let v ← value? t
    let vs ← values? items
    some (v :: vs)

def members? : List (Option String × Tree) → Option (List (String × Value))
  | [] => some []
  | (k, t) :: members => do
    let key ← k
    let v ← value? t
    let ms ← members? members
    some ((key, v) :: ms)

end

mutual

def depth : Tree → Nat
  | .list items => depthOfItems items + 1
  | .object members => depthOfMembers members + 1
  | _ => 0

def depthOfItems : List Tree → Nat
  | [] => 0
  | t :: items => max (depth t) (depthOfItems items)

def depthOfMembers : List (Option String × Tree) → Nat
  | [] => 0
  | (_, t) :: members => max (depth t) (depthOfMembers members)

end

def isReadable (t : Tree) : Bool :=
  t.value?.isSome

-- The deepest nesting that a document may have where it is read.
def maxDepth : Nat := 127

end Tree

end BotConsole.Json
