namespace BotConsole.Toml

-- A value without parts. A float and a moment are kept as they are written: no setting has
-- either kind.
inductive Scalar where
  | text (value : String)
  | integer (value : Int)
  | float (literal : String)
  | bool (value : Bool)
  | moment (literal : String)
  deriving DecidableEq, Inhabited

abbrev Path := List String

-- A value as it is written: an inline table gives its members with their whole paths.
inductive Tree where
  | scalar (value : Scalar)
  | list (items : List Tree)
  | inline (members : List (Path × Tree))
  deriving Inhabited

-- A value with the tables that the paths of its members add up to. No name stands twice in
-- one table.
inductive Value where
  | scalar (value : Scalar)
  | list (items : List Value)
  | table (entries : List (String × Value))
  deriving Inhabited

namespace Value

mutual

def isEqual : Value → Value → Bool
  | .scalar a, .scalar b => a == b
  | .list as, .list bs => areEqual as bs
  | .table as, .table bs => haveEqual as bs
  | _, _ => false

def areEqual : List Value → List Value → Bool
  | [], [] => true
  | a :: as, b :: bs => isEqual a b && areEqual as bs
  | _, _ => false

def haveEqual : List (String × Value) → List (String × Value) → Bool
  | [], [] => true
  | (k, a) :: as, (l, b) :: bs => k == l && isEqual a b && haveEqual as bs
  | _, _ => false

end

mutual

theorem isEqual_iff : (a b : Value) → (isEqual a b = true ↔ a = b)
  | .scalar _, b => by cases b <;> simp [isEqual]
  | .list as, b => by cases b <;> simp [isEqual, areEqual_iff as]
  | .table as, b => by cases b <;> simp [isEqual, haveEqual_iff as]

theorem areEqual_iff : (as bs : List Value) → (areEqual as bs = true ↔ as = bs)
  | [], bs => by cases bs <;> simp [areEqual]
  | a :: as, bs => by cases bs <;> simp [areEqual, isEqual_iff a, areEqual_iff as]

theorem haveEqual_iff : (as bs : List (String × Value)) → (haveEqual as bs = true ↔ as = bs)
  | [], bs => by cases bs <;> simp [haveEqual]
  | (k, a) :: as, bs => by
    cases bs <;> simp [haveEqual, isEqual_iff a, haveEqual_iff as, Prod.ext_iff]

end

instance : DecidableEq Value := fun a b => decidable_of_iff _ (isEqual_iff a b)

end Value

namespace Tree

mutual

-- The number of brackets and braces around the deepest place.
def depth : Tree → Nat
  | .scalar _ => 0
  | .list items => depthOfItems items + 1
  | .inline members => depthOfMembers members + 1

def depthOfItems : List Tree → Nat
  | [] => 0
  | t :: items => max (depth t) (depthOfItems items)

def depthOfMembers : List (Path × Tree) → Nat
  | [] => 0
  | (_, t) :: members => max (depth t) (depthOfMembers members)

end

def maxDepth : Nat := 80

end Tree

end BotConsole.Toml
