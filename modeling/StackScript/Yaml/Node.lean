import StackScript.Yaml.Schema
import StackScript.Yaml.Tokens

/-!
# Nodes of a YAML text

A node is a scalar, a sequence, a mapping, or an alias of a node that has an anchor. Nodes carry a
label, so that one can be recognised when it is met again. The nodes are read from the tokens by
recursive descent.

## Main definitions

* `Yaml.Node`: the nodes.
* `Yaml.NodeGraph`: the root of a text with the nodes that have anchors.
* `Yaml.Nodes`: a step of reading nodes.
* `Yaml.readNodes`: the node graph of a text; an empty text has none.
-/

namespace StackScript.Yaml

/-- A node of a YAML text. -/
inductive Node where
  | scalar (label : Nat) (tag : Tag) (text : List Char)
  | sequence (label : Nat) (tag : Tag) (items : List Node)
  | mapping (label : Nat) (tag : Tag) (entries : List (Node × Node))
  | alias (name : String)

/-- The root of a text, the nodes that have anchors, and the number of labels in use. -/
structure NodeGraph where
  root : Node
  anchored : List (String × Node)
  labels : Nat

/-- The state of reading nodes: the tokens to come and the fault after them, the meanings of tag
handles, the anchors seen, the anchored nodes that are complete, and the next label. -/
structure NodeState where
  tokens : List Token
  fault : Option Fault
  handles : List (String × String) := []
  anchors : List String := []
  anchored : List (String × Node) := []
  nextLabel : Nat := 0

/-- A step of reading nodes. -/
abbrev Nodes (α : Type) := StateT NodeState (Except Fault) α

namespace Nodes

variable {α : Type}

/-- Fails. -/
def fail : Nodes α := throw .malformed

/-- The next token. -/
def peek : Nodes Token := do
  let s ← get
  match s.tokens, s.fault with
  | token :: _, _ => return token
  | [], some fault => throw fault
  | [], none => throw .malformed

/-- Passes the next token. -/
def advance : Nodes Unit := modify fun s => { s with tokens := s.tokens.tail }

/-- Passes the next token if it is the given one, and tells whether it was. -/
def accept (token : Token) : Nodes Bool := do
  if (← peek) = token then
    advance
    return true
  else return false

/-- Whether the next token is one of the given ones. -/
def atAny (tokens : List Token) : Nodes Bool := do return tokens.contains (← peek)

/-- A new label. -/
def newLabel : Nodes Nat := do
  let s ← get
  set { s with nextLabel := s.nextLabel + 1 }
  return s.nextLabel

/-! ### Properties of nodes -/

/-- The handles that every document knows. -/
def defaultHandles : List (String × String) :=
  [("!", "!"), ("!!", String.ofList Tag.standardStart)]

/-- The tag in full that a handle and a suffix stand for. -/
def fullTag (handle : Option String) (suffix : String) : Nodes String := do
  match handle with
  | none => return suffix
  | some handle =>
    match ((← get).handles ++ defaultHandles).lookup handle with
    | some start => return start ++ suffix
    | none => fail

/-- An anchor at the next token, if there is one. -/
def anchor? : Nodes (Option String) := do
  match ← peek with
  | .anchor name =>
    advance
    return some name
  | _ => return none

/-- The handle and the suffix of a tag at the next token, if there is one. -/
def tag? : Nodes (Option (Option String × String)) := do
  match ← peek with
  | .tag handle suffix =>
    advance
    return some (handle, suffix)
  | _ => return none

/-- The anchor and the tag of a node, in either order. The handle of the tag is looked up after both
are read. -/
def properties : Nodes (Option String × Option String) := do
  let (anchor, tag) ←
    match ← anchor? with
    | some name => do pure (some name, ← tag?)
    | none => do
      match ← tag? with
      | some tag => do pure (← anchor?, some tag)
      | none => pure (none, none)
  match tag with
  | some (handle, suffix) => return (anchor, some (← fullTag handle suffix))
  | none => return (anchor, none)

/-- A new anchor, which must not have been seen before. -/
def declare : Option String → Nodes Unit
  | none => return ()
  | some name => do
    let s ← get
    if s.anchors.contains name then fail
    else set { s with anchors := name :: s.anchors }

/-- A complete node with its anchor. -/
def complete (anchor : Option String) (node : Node) : Nodes Node := do
  if let some name := anchor then
    modify fun s => { s with anchored := (name, node) :: s.anchored }
  return node

/-- The type of a scalar. A plain one without a tag, and any with the tag of one exclamation mark,
has the type of its form. -/
def scalarTag (tag : Option String) (plain : Bool) (text : List Char) : Tag :=
  match tag with
  | none => if plain then implicitTag text else .str
  | some "!" => implicitTag text
  | some tag => .ofText tag

/-- The type of a collection. -/
def collectionTag (tag : Option String) (standard : Tag) : Tag :=
  match tag with
  | none => standard
  | some "!" => standard
  | some tag => .ofText tag

/-- A scalar. -/
def scalarNode (tag : Option String) (plain : Bool) (text : List Char) : Nodes Node := do
  return .scalar (← newLabel) (scalarTag tag plain text) text

/-- The node where nothing is written. -/
def emptyNode : Nodes Node := scalarNode none true []

/-! ### Nodes -/

/-- Where a node may stand: between brackets, in a block, or in a block whose column also takes
items of a sequence. -/
inductive Place where
  | flow
  | block
  | mappingBlock
deriving DecidableEq

/-- A node unless one of the given tokens follows, which leave it empty. -/
def nodeUnless (node : Nodes Node) (ends : List Token) : Nodes Node := do
  if ← atAny ends then emptyNode else node

/-- The items of a sequence in a block of its own. -/
def blockItems (node : Place → Nodes Node) (done : List Node) : (fuel : Nat) → Nodes (List Node)
  | 0 => fail
  | fuel + 1 => do
    if ← accept .blockEntry then
      let item ← nodeUnless (node .block) [.blockEntry, .blockEnd]
      blockItems node (item :: done) fuel
    else if ← accept .blockEnd then return done.reverse
    else fail

/-- The items of a sequence in the column of the mapping around it. -/
def indentlessItems (node : Place → Nodes Node) (done : List Node) :
    (fuel : Nat) → Nodes (List Node)
  | 0 => fail
  | fuel + 1 => do
    if ← accept .blockEntry then
      let item ← nodeUnless (node .block) [.blockEntry, .key, .value, .blockEnd]
      indentlessItems node (item :: done) fuel
    else return done.reverse

/-- The entries of a mapping in a block. -/
def blockEntries (node : Place → Nodes Node) (done : List (Node × Node)) :
    (fuel : Nat) → Nodes (List (Node × Node))
  | 0 => fail
  | fuel + 1 => do
    let ends := [.key, .value, .blockEnd]
    if ← accept .key then
      let key ← nodeUnless (node .mappingBlock) ends
      let value ←
        if ← accept .value then nodeUnless (node .mappingBlock) ends else emptyNode
      blockEntries node ((key, value) :: done) fuel
    else if ← accept .blockEnd then return done.reverse
    else fail

/-- The value after a key between brackets; it is empty if there is no colon. -/
def flowValue (node : Place → Nodes Node) (close : Token) : Nodes Node := do
  if ← accept .value then nodeUnless (node .flow) [.flowEntry, close] else emptyNode

/-- An item of a sequence between brackets; a key there makes a mapping with one entry. -/
def flowItem (node : Place → Nodes Node) : Nodes Node := do
  if ← accept .key then
    let label ← newLabel
    let key ← nodeUnless (node .flow) [.value, .flowEntry, .flowSequenceEnd]
    let value ← flowValue node .flowSequenceEnd
    return .mapping label .map [(key, value)]
  else node .flow

/-- An entry of a mapping between brackets. A node that is not marked as a key has an empty
value. -/
def flowPair (node : Place → Nodes Node) : Nodes (Node × Node) := do
  if ← accept .key then
    let key ← nodeUnless (node .flow) [.value, .flowEntry, .flowMappingEnd]
    return (key, ← flowValue node .flowMappingEnd)
  else return (← node .flow, ← emptyNode)

/-- What stands between brackets, with commas between. A comma may stand before the closing
bracket. -/
def flowList (item : Nodes α) (close : Token) (done : List α) :
    (fuel : Nat) → Nodes (List α)
  | 0 => fail
  | fuel + 1 => do
    if ← accept close then return done.reverse
    else
      if !done.isEmpty then
        if !(← accept .flowEntry) then fail
      if ← accept close then return done.reverse
      else flowList item close ((← item) :: done) fuel

/-- The content of a node after its properties, which starts with the given token, with a bound on
its size. -/
def content (node : Place → Nodes Node) (size : Nat) (place : Place) (anchor tag : Option String)
    (first : Token) : Nodes Node := do
  let sequence (items : Nodes (List Node)) : Nodes Node := do
    let label ← newLabel
    return .sequence label (collectionTag tag .seq) (← items)
  let mapping (entries : Nodes (List (Node × Node))) : Nodes Node := do
    let label ← newLabel
    return .mapping label (collectionTag tag .map) (← entries)
  match first with
  | .blockEntry =>
    if place = .mappingBlock then sequence (indentlessItems node [] size)
    else if anchor.isSome || tag.isSome then scalarNode tag true []
    else fail
  | .scalar text plain =>
    advance
    scalarNode tag plain text
  | .flowSequenceStart =>
    advance
    sequence (flowList (flowItem node) .flowSequenceEnd [] size)
  | .flowMappingStart =>
    advance
    mapping (flowList (flowPair node) .flowMappingEnd [] size)
  | token =>
    if place ≠ .flow && token = .blockSequenceStart then
      advance
      sequence (blockItems node [] size)
    else if place ≠ .flow && token = .blockMappingStart then
      advance
      mapping (blockEntries node [] size)
    else if anchor.isSome || tag.isSome then scalarNode tag true []
    else fail

/-- A node at a place. Nodes nest less deeply than there are tokens, so `fuel` bounds the nesting,
and `size` the number of parts of each. -/
def node (size : Nat) : (fuel : Nat) → Place → Nodes Node
  | 0, _ => fail
  | fuel + 1, place => do
    match ← peek with
    | .alias name =>
      advance
      if (← get).anchors.contains name then return .alias name else fail
    | _ =>
      let (anchor, tag) ← properties
      let first ← peek
      declare anchor
      complete anchor (← content (node size fuel) size place anchor tag first)

/-! ### Documents -/

/-- The directives before a document: at most one version, which has to be one, and at most one
meaning for each handle. -/
def directives (versioned : Bool) : (fuel : Nat) → Nodes Unit
  | 0 => return ()
  | fuel + 1 => do
    match ← peek with
    | .directive (.version major) =>
      advance
      if versioned || major ≠ 1 then fail else directives true fuel
    | .directive (.tagHandle handle start) =>
      advance
      let s ← get
      if s.handles.any fun (known, _) => known == handle then fail
      else
        set { s with handles := s.handles ++ [(handle, start)] }
        directives versioned fuel
    | .directive .unknown =>
      advance
      directives versioned fuel
    | _ => return ()

/-- The end of the text after its only document. The start of another document, with the token after
its directives, is read before it is refused. -/
def finish (size : Nat) : Nodes Unit := do
  modify fun s => { s with tokens := s.tokens.dropWhile (· = .documentEnd), handles := [] }
  if !(← accept .streamEnd) then
    directives false size
    let _ ← peek
    fail

/-- A document whose start is marked, after its directives. -/
def markedDocument (size : Nat) : Nodes Node := do
  directives false size
  if !(← accept .documentStart) then fail
  let isEmpty ← match ← peek with
    | .directive _ => pure true
    | token => pure ([Token.documentStart, .documentEnd, .streamEnd].contains token)
  if isEmpty then emptyNode else node size size .block

/-- The only document of a text. -/
def document : Nodes (Option Node) := do
  let size := (← get).tokens.length + 1
  let root ← match ← peek with
    | .streamEnd => return none
    | .directive _ => markedDocument size
    | .documentStart => markedDocument size
    | _ => node size size .block
  finish size
  return some root

end Nodes

/-- The node graph of a text; an empty text has none. -/
def readNodes (text : List Char) : Except Fault (Option NodeGraph) := do
  let (tokens, fault) := tokens text
  let (root, s) ← Nodes.document.run { tokens, fault }
  return root.map fun node => ⟨node, s.anchored, s.nextLabel⟩

end StackScript.Yaml
