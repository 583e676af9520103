import BotConsole.Yaml.Layout

namespace BotConsole.Yaml

-- The number that a node is known by, and its tag with the shorthand written out.
structure Properties where
  anchor : Option Nat
  tag : Option String
  deriving DecidableEq, Inhabited

-- A document as a tree. A key of a mapping can be any node.
inductive Node where
  | alias (number : Nat)
  | scalar (properties : Properties) (style : Style) (text : String)
  | list (properties : Properties) (items : List Node)
  | mapping (properties : Properties) (members : List (Node × Node))
  deriving Inhabited

-- The tokens that are left, with the names of anchors and the shorthands of tags.
structure Grammar where
  tokens : List Token
  anchors : List (String × Nat)
  shorthands : List (String × String)

namespace Grammar

abbrev Reading := StateT Grammar Option

def peek : Reading (Option Token) := do
  return (← get).tokens.head?

def skip : Reading Unit :=
  modify fun g => { g with tokens := g.tokens.drop 1 }

def fail {α : Type} : Reading α :=
  fun _ => none

def skipIf (token : Token) : Reading Bool := do
  if (← peek) == some token then
    skip
    return true
  else return false

def expect (token : Token) : Reading Unit := do
  if !(← skipIf token) then fail

def sees (tokens : List Token) : Reading Bool := do
  return (← peek).any tokens.contains

-- A name stands for as many as there were names before; a name given anew leaves that many.
def newAnchor (name : String) : Reading Nat := do
  let g ← get
  let number := g.anchors.length
  set { g with anchors := (name, number) :: g.anchors.filter (·.1 != name) }
  return number

def knownAnchor (name : String) : Reading Nat := do
  match (← get).anchors.lookup name with
  | some number => return number
  | none => fail

def resolveTag (handle suffix : String) : Reading String := do
  if handle.isEmpty then return suffix
  else match (← get).shorthands.lookup handle with
    | some start => return start ++ suffix
    | none => fail

-- An anchor and a tag in either order, each once at most.
def names : Reading (Option String × Option String) := do
  let anchor : Reading (Option String) := do
    match ← peek with
    | some (.anchor name) => skip; return some name
    | _ => return none
  let tag : Reading (Option String) := do
    match ← peek with
    | some (.tag handle suffix) => skip; return some (← resolveTag handle suffix)
    | _ => return none
  match ← anchor with
  | some name => return (some name, ← tag)
  | none =>
    let t ← tag
    return (← if t.isSome then anchor else pure none, t)

def properties : Reading Properties := do
  let (name, tag) ← names
  match name with
  | some name => return ⟨some (← newAnchor name), tag⟩
  | none => return ⟨none, tag⟩

def emptyNode (p : Properties := ⟨none, none⟩) : Node :=
  .scalar p .plain ""

-- The tag that asks for nothing in particular is dropped from scalars.
def scalarProperties (p : Properties) : Properties :=
  if p.tag == some "!" then { p with tag := none } else p

mutual

-- A node. In a block it may be a block collection, and as the value of a key a list that is
-- not indented.
def node : Nat → Bool → Bool → Reading Node
  | 0, _, _ => fail
  | fuel + 1, block, unindented => do
    match ← peek with
    | some (.alias name) =>
      skip
      return .alias (← knownAnchor name)
    | _ =>
      let p ← properties
      match ← peek with
      | some (.scalar style text) =>
        skip
        return .scalar (scalarProperties p) style text
      | some .flowSequence =>
        skip
        return .list p (← flowItems fuel true)
      | some .flowMapping =>
        skip
        return .mapping p (← flowMembers fuel true)
      | token =>
        if unindented && token == some .blockEntry then return .list p (← unindentedItems fuel)
        else if block && token == some .blockSequence then
          skip
          return .list p (← blockItems fuel)
        else if block && token == some .blockMapping then
          skip
          return .mapping p (← blockMembers fuel)
        else if p.anchor.isSome || p.tag.isSome then return emptyNode p
        else fail

def blockNode : Nat → Bool → List Token → Reading Node
  | 0, _, _ => fail
  | fuel + 1, unindented, stops => do
    if ← sees stops then return emptyNode else node fuel true unindented

def flowNode : Nat → List Token → Reading Node
  | 0, _ => fail
  | fuel + 1, stops => do
    if ← sees stops then return emptyNode else node fuel false false

def blockItems : Nat → Reading (List Node)
  | 0 => fail
  | fuel + 1 => do
    if ← skipIf .blockEntry then
      let item ← blockNode fuel false [.blockEntry, .blockEnd]
      return item :: (← blockItems fuel)
    else
      expect .blockEnd
      return []

def unindentedItems : Nat → Reading (List Node)
  | 0 => fail
  | fuel + 1 => do
    if ← skipIf .blockEntry then
      let item ← blockNode fuel false [.blockEntry, .key, .value, .blockEnd]
      return item :: (← unindentedItems fuel)
    else return []

def blockMembers : Nat → Reading (List (Node × Node))
  | 0 => fail
  | fuel + 1 => do
    let stops : List Token := [.key, .value, .blockEnd]
    if ← skipIf .blockEnd then return []
    else
      expect .key
      let key ← blockNode fuel true stops
      let value ← if ← skipIf .value then blockNode fuel true stops else pure emptyNode
      return (key, value) :: (← blockMembers fuel)

-- The items up to the closing bracket, the first one without a comma in front. A key makes an
-- item a mapping with one member.
def flowItems : Nat → Bool → Reading (List Node)
  | 0, _ => fail
  | fuel + 1, first => do
    if ← skipIf .flowSequenceEnd then return []
    else
      if !first then expect .flowEntry
      if ← skipIf .flowSequenceEnd then return []
      else if ← skipIf .key then
        let item ← pair fuel
        return item :: (← flowItems fuel false)
      else
        let item ← node fuel false false
        return item :: (← flowItems fuel false)

-- The mapping behind the key sign of an item. A sign that follows at once is passed over.
def pair : Nat → Reading Node
  | 0 => fail
  | fuel + 1 => do
    let stops : List Token := [.flowEntry, .flowSequenceEnd]
    let key ← if ← sees (.value :: stops) then do
        skip
        pure emptyNode
      else node fuel false false
    let value ← if ← skipIf .value then flowNode fuel stops else pure emptyNode
    return .mapping ⟨none, none⟩ [(key, value)]

def flowMembers : Nat → Bool → Reading (List (Node × Node))
  | 0, _ => fail
  | fuel + 1, first => do
    let stops : List Token := [.flowEntry, .flowMappingEnd]
    if ← skipIf .flowMappingEnd then return []
    else
      if !first then expect .flowEntry
      if ← skipIf .flowMappingEnd then return []
      else
        let marked ← skipIf .key
        let key ← if marked then flowNode fuel (.value :: stops) else node fuel false false
        let value ← if marked then
            if ← skipIf .value then flowNode fuel stops else pure emptyNode
          else pure emptyNode
        return (key, value) :: (← flowMembers fuel false)

end

def knownShorthands : List (String × String) :=
  [("!", "!"), ("!!", "tag:yaml.org,2002:")]

-- The directives in front of a document: one version at most, and a shorthand once.
def directives : Nat → Bool → Reading Unit
  | 0, _ => fail
  | fuel + 1, versioned => do
    match ← peek with
    | some (.version major minor) =>
      if versioned || major != 1 || (minor != 1 && minor != 2) then fail
      else
        skip
        directives fuel true
    | some (.tagShorthand handle start) =>
      if ((← get).shorthands.lookup handle).isSome then fail
      else
        modify fun g => { g with shorthands := (handle, start) :: g.shorthands }
        skip
        directives fuel versioned
    | _ => return

def isPreamble : Token → Bool
  | .version _ _ | .tagShorthand _ _ | .documentStart => true
  | _ => false

-- The root of the first document; none when there is no document. Directives must be followed
-- by the mark of a start, which can have nothing behind it.
def root (fuel : Nat) : Reading (Option Node) := do
  match ← peek with
  | none => return none
  | some token =>
    let marked := isPreamble token
    directives fuel false
    modify fun g => { g with shorthands := g.shorthands ++ knownShorthands }
    if marked then expect .documentStart
    let next ← peek
    if marked && next.all (fun t => isPreamble t || t == .documentEnd) then return some emptyNode
    else return some (← node fuel true false)

end Grammar

-- The root of the only document; `some none` when there is none.
def Node.ofTokens? (tokens : List Token) : Option (Option Node) := do
  let (node, g) ← (Grammar.root (4 * tokens.length + 4)).run ⟨tokens, [], []⟩
  if g.tokens.all (· == .documentEnd) then some node else none

end BotConsole.Yaml
