import BotConsole.Yaml.Scalar

namespace BotConsole.Yaml

mutual

-- The anchored nodes in the order in which they begin.
def anchored : Node → List (Nat × Node)
  | .alias _ => []
  | .scalar p style text => named p (.scalar p style text)
  | .list p items => named p (.list p items) ++ anchoredItems items
  | .mapping p members => named p (.mapping p members) ++ anchoredMembers members

def anchoredItems : List Node → List (Nat × Node)
  | [] => []
  | n :: items => anchored n ++ anchoredItems items

def anchoredMembers : List (Node × Node) → List (Nat × Node)
  | [] => []
  | (k, v) :: members => anchored k ++ anchored v ++ anchoredMembers members

def named (p : Properties) (n : Node) : List (Nat × Node) :=
  (p.anchor.map (·, n)).toList

end

mutual

-- The number of scalars and aliases, and of the two ends of each collection.
def extent : Node → Nat
  | .alias _ | .scalar _ _ _ => 1
  | .list _ items => extentOfItems items + 2
  | .mapping _ members => extentOfMembers members + 2

def extentOfItems : List Node → Nat
  | [] => 0
  | n :: items => extent n + extentOfItems items

def extentOfMembers : List (Node × Node) → Nat
  | [] => 0
  | (k, v) :: members => extent k + extent v + extentOfMembers members

end

-- A document with the nodes that its aliases stand for. When a number was given out twice the
-- node that begins last has it.
structure Document where
  root : Option Node
  targets : List (Nat × Node)

namespace Document

def ofText? (text : List Char) : Option Document := do
  let tokens ← Token.ofText? text
  let root ← Node.ofTokens? tokens
  some ⟨root, ((root.map anchored).getD []).reverse⟩

-- Reading of values; the state is how many aliases may still be followed.
abbrev Reading := StateT Nat Option

def fail {α : Type} : Reading α :=
  fun _ => none

def orFail {α : Type} (x : Option α) : Reading α :=
  fun s => x.map (·, s)

-- How many collections may be nested, those behind aliases included.
def maxDepth : Nat := 128

-- For every part of a document that many aliases may be followed.
def aliasFactor : Nat := 100

def target (d : Document) : Node → Reading Node
  | .alias number => do
    match ← get with
    | 0 => fail
    | left + 1 =>
      set left
      orFail (d.targets.lookup number)
  | n => return n

-- The text of a scalar as it is written, whatever it would mean elsewhere.
def text (d : Document) (n : Node) : Reading String := do
  match ← d.target n with
  | .scalar _ _ text => return text
  | _ => fail

def bool (d : Document) (n : Node) : Reading Bool := do
  match ← d.target n with
  | .scalar p style text =>
    if style = .plain || (style = .literal && p.tag = some Scalar.boolTag) then
      orFail (Scalar.bool? text)
    else fail
  | _ => fail

def nullable {α : Type} (d : Document) (read : Node → Reading α) (n : Node) :
    Reading (Option α) := do
  let n ← d.target n
  match n with
  | .scalar p .plain text =>
    match p.tag with
    | none => if text.isEmpty || Scalar.isNull text then return none else return some (← read n)
    | some tag =>
      if tag != Scalar.nullTag then return some (← read n)
      else if Scalar.isNull text then return none
      else fail
  | _ => return some (← read n)

-- The items of a list, each read with one level of nesting less. An empty text is an empty
-- list.
def list {α : Type} (d : Document) (read : Nat → Node → Reading α) (depth : Nat) (n : Node) :
    Reading (List α) := do
  match ← d.target n with
  | .list _ items =>
    match depth with
    | 0 => fail
    | depth + 1 => items.mapM (read depth)
  | .scalar _ .plain "" => return []
  | _ => fail

-- The members of a mapping by their texts, with the levels of nesting left for their values.
-- An empty text is an empty mapping.
def members (d : Document) (depth : Nat) (n : Node) : Reading (Nat × List (String × Node)) := do
  match ← d.target n with
  | .mapping _ members =>
    match depth with
    | 0 => fail
    | depth + 1 => return (depth, ← members.mapM fun (k, v) => return (← d.text k, v))
  | .scalar _ .plain "" => return (depth, [])
  | _ => fail

-- The fields of a record by their names. A name that stands twice makes it unreadable; other
-- members are passed over.
def fields (d : Document) (names : List String) (depth : Nat) (n : Node) :
    Reading (Nat × List (Option Node)) := do
  let (depth, members) ← d.members depth n
  let fields ← names.mapM fun name =>
    match members.filter (·.1 == name) with
    | [] => pure none
    | [(_, n)] => pure (some n)
    | _ => fail
  return (depth, fields)

def refuseLocal (p : Properties) : Reading Unit :=
  if p.tag.any Scalar.isLocal then fail else return

-- A value of any form; the keys of its mappings are taken as texts.
def value (d : Document) (depth : Nat) (n : Node) : Reading Json.Value := do
  match ← d.target n with
  | .alias _ => fail
  | .scalar p style text => return (← orFail (Scalar.meaning? p.tag style text)).toValue
  | .list p items =>
    refuseLocal p
    match depth with
    | 0 => fail
    | depth + 1 => return .list (← items.mapM (d.value depth))
  | .mapping p members =>
    refuseLocal p
    match depth with
    | 0 => fail
    | depth + 1 =>
      let pairs ← members.mapM fun (k, v) => return (← d.text k, ← d.value depth v)
      return .object (putAll pairs [])

-- The text of a value of any form, if it is one; its keys can be of any form as well.
def textOfAny (d : Document) (depth : Nat) (n : Node) : Reading (Option String) := do
  match ← d.target n with
  | .alias _ => fail
  | .scalar p style text =>
    match ← orFail (Scalar.meaning? p.tag style text) with
    | .text s => return some s
    | _ => return none
  | .list p items =>
    refuseLocal p
    match depth with
    | 0 => fail
    | depth + 1 =>
      let _ ← items.mapM (d.textOfAny depth)
      return none
  | .mapping p members =>
    refuseLocal p
    match depth with
    | 0 => fail
    | depth + 1 =>
      let _ ← members.mapM fun (k, v) => return (← d.textOfAny depth k, ← d.textOfAny depth v)
      return none

-- What `read` makes of the root; `absent` stands for a document that is not there.
def read? {α : Type} (d : Document) (absent : α) (read : Document → Nat → Node → Reading α) :
    Option α :=
  match d.root with
  | none => some absent
  | some n => ((read d maxDepth n).run (aliasFactor * extent n)).map (·.1)

end Document

end BotConsole.Yaml
