import StackScript.Yaml.Node
import StackScript.Yaml.ScalarValue

/-!
# Building the collections of a node graph

The nodes of a graph are visited in a fixed order, and the first fault on the way is the fault of
the text. A collection is begun when it is first met, and its parts are visited after everything
that was met before them; everything under a short form is visited at once. A collection that is met
again is shared, unless it is still being built at once.

The entries that a mapping merges from others are put before its own when its parts are visited, and
a sign for the default value among its keys counts as a string from then on.

## Main definitions

* `Yaml.Part`, `Yaml.Content`: what collections are made of.
* `Yaml.Construction`, `Yaml.Construct`: what has been built so far, and a step of building.
* `Yaml.Construct.flatten`: merges entries into a mapping.
* `Yaml.Construct.visit`: a node as a part.
* `Yaml.NodeGraph.construct`: the contents of all collections of a graph.
-/

namespace StackScript.Yaml

/-- A part of a collection: a value without parts of its own, or a collection by its label. -/
inductive Part where
  | value (v : Value)
  | collection (label : Nat)

/-- What a collection is made of. A `call` is a mapping with one entry, whose value need not be a
collection of the text. -/
inductive Content where
  | single (part : Part)
  | list (items : List Part)
  | map (entries : List (Value × Part))
  | set (keys : List Value)
  | pairs (items : List (Part × Part))
  | call (key : String) (argument : Content)

/-! ### Short forms -/

namespace ShortForm

/-- The key of the call that a short form stands for. -/
def key : ShortForm → String
  | .ref => "Ref"
  | .condition => "Condition"
  | .getAtt => "Fn::GetAtt"
  | .getAZs => "Fn::GetAZs"
  | .function name => "Fn::" ++ name

/-- The argument that a text gives: for an attribute, a text with a dot is its two parts. -/
def textArgument (form : ShortForm) (text : List Char) : Value :=
  let base := text.takeWhile (· != '.')
  match form, text.drop base.length with
  | .getAtt, _ :: attr => .list [.str (String.ofList base), .str (String.ofList attr)]
  | _, _ => .str (String.ofList text)

/-- The argument that a collection gives: for availability zones, a list is its first item. -/
def argument (form : ShortForm) (content : Content) : Content :=
  match form, content with
  | .getAZs, .list (first :: _) => .single first
  | .getAZs, .list [] => .single (.value (.str ""))
  | _, content => content

end ShortForm

/-! ### Types -/

namespace Tag

/-- The types whose values are written as scalars. -/
def isScalar : Tag → Bool
  | .null => true
  | .bool => true
  | .int => true
  | .float => true
  | .binary => true
  | .timestamp => true
  | .str => true
  | _ => false

/-- The types whose values are collections. -/
def isCollection : Tag → Bool
  | .seq => true
  | .map => true
  | .omap => true
  | .pairs => true
  | .set => true
  | _ => false

end Tag

/-- Whether a value can be a key. -/
def isKey : Value → Bool
  | .scalar _ => true
  | .bytes _ => true
  | .date _ => true
  | .moment _ => true
  | _ => false

/-! ### Steps -/

/-- What has been built so far: the contents of finished collections, the collections that have been
begun, those that are being built at once, the nodes that wait for their parts, from the last to the
first, the entries of mappings after merging, and the signs for the default value that count as
strings. -/
structure Construction where
  contents : List (Nat × Content) := []
  begun : List Nat := []
  active : List Nat := []
  waiting : List Node := []
  merged : List (Nat × List (Node × Node)) := []
  strings : List Nat := []

/-- A step of building, which knows the nodes that have anchors. -/
abbrev Construct (α : Type) :=
  ReaderT (List (String × Node)) (StateT Construction (Except Fault)) α

namespace Construct

variable {α : Type}

/-- Fails. -/
def fail : Construct α := throw .malformed

/-- The result of something that may have a fault. -/
def lift : Except Fault α → Construct α
  | .ok a => return a
  | .error fault => throw fault

/-- The node that an alias stands for; other nodes stand for themselves. -/
def resolve : Node → Construct Node
  | .alias name => do
    match (← read).lookup name with
    | some node => return node
    | none => fail
  | node => return node

/-- The type of a node. -/
def tagOf (node : Node) : Construct Tag := do
  match ← resolve node with
  | .scalar label tag _ =>
    return if tag = .value && (← get).strings.contains label then .str else tag
  | .sequence _ tag _ => return tag
  | .mapping _ tag _ => return tag
  | .alias _ => fail

/-- The entries of a mapping, with those that have been merged into it. -/
def entriesOf (label : Nat) (entries : List (Node × Node)) : Construct (List (Node × Node)) := do
  return ((← get).merged.lookup label).getD entries

/-- Replaces the entries of a mapping. -/
def setEntries (label : Nat) (entries : List (Node × Node)) : Construct Unit :=
  modify fun s => { s with
    merged := (label, entries) :: s.merged.filter fun (other, _) => other != label }

/-- Lets a sign for the default value count as a string. -/
def countAsString (node : Node) : Construct Unit := do
  if let .scalar label _ _ ← resolve node then
    modify fun s => { s with strings := label :: s.strings }

/-! ### Merged entries -/

/-- Merges entries into a mapping from the entry with the given index on, where `found` are the
entries merged so far. An entry that merges is taken out before the mappings that it names are
looked at; of several named in a list, the last one comes first. -/
def flatten : (fuel : Nat) → (label : Nat) → (written : List (Node × Node)) → (index : Nat) →
    (found : List (Node × Node)) → Construct Unit
  | 0, _, _, _, _ => fail
  | fuel + 1, label, written, index, found => do
    let mergedFrom (node : Node) : Construct (List (Node × Node)) := do
      match ← resolve node with
      | .mapping other _ entries =>
        flatten fuel other entries 0 []
        entriesOf other entries
      | _ => fail
    let entries ← entriesOf label written
    match entries[index]? with
    | none => if !found.isEmpty then setEntries label (found ++ entries)
    | some (key, value) =>
      match ← tagOf key with
      | .merge =>
        setEntries label (entries.eraseIdx index)
        let more ← match ← resolve value with
          | .sequence _ _ items => do pure (← items.mapM mergedFrom).reverse.flatten
          | other => mergedFrom other
        flatten fuel label written index (found ++ more)
      | .value =>
        countAsString key
        flatten fuel label written (index + 1) found
      | _ => flatten fuel label written (index + 1) found

/-! ### Scalars -/

/-- The text of a node that is asked for as a scalar. A mapping gives the value of its default
key. -/
def scalarText : (fuel : Nat) → Node → Construct (List Char)
  | 0, _ => fail
  | fuel + 1, node => do
    match ← resolve node with
    | .scalar _ _ text => return text
    | .mapping label _ written =>
      let entries ← entriesOf label written
      match ← entries.findM? fun (key, _) => do return (← tagOf key) = .value with
      | some (_, value) => scalarText fuel value
      | none => fail
    | _ => fail

/-- The value of a mapping that is asked for as a scalar. -/
def mappingScalar (fuel : Nat) (tag : Tag) (node : Node) : Construct Value := do
  let text ← scalarText fuel node
  if tag = .timestamp then throw .timestampShape else lift (scalarValue tag text)

/-! ### Collections -/

/-- Finishes a collection. -/
def finish (label : Nat) (content : Content) : Construct Unit :=
  modify fun s => { s with
    contents := (label, content) :: s.contents
    begun := label :: s.begun
    active := s.active.filter (· != label) }

/-- Begins a collection whose parts are visited later. -/
def postpone (label : Nat) (node : Node) : Construct Part := do
  modify fun s => { s with begun := label :: s.begun, waiting := node :: s.waiting }
  return .collection label

/-- A collection that is built at once. -/
def atOnce (label : Nat) (content : Construct Content) : Construct Part := do
  modify fun s => { s with active := label :: s.active }
  finish label (← content)
  return .collection label

/-- The part that a collection is when it is met again, if it has been begun. One that is being
built at once cannot be met again. -/
def shared? (label : Nat) : Construct (Option Part) := do
  let s ← get
  if s.begun.contains label then
    match s.contents.lookup label with
    | some (.single part) => return some part
    | _ => return some (.collection label)
  else if s.active.contains label then fail
  else return none

/-- The entries of a mapping with its parts. -/
def entryParts (visit : Node → Construct Part) (fuel label : Nat) (written : List (Node × Node)) :
    Construct (List (Value × Part)) := do
  flatten fuel label written 0 []
  (← entriesOf label written).mapM fun (keyNode, valueNode) => do
    match ← visit keyNode with
    | .value key => if isKey key then return (key, ← visit valueNode) else fail
    | .collection _ => fail

/-- The parts of a list of mappings with one entry each. -/
def pairParts (visit : Node → Construct Part) (items : List Node) :
    Construct (List (Part × Part)) :=
  items.mapM fun item => do
    match ← resolve item with
    | .mapping label _ written =>
      match ← entriesOf label written with
      | [(key, value)] => return (← visit key, ← visit value)
      | _ => fail
    | _ => fail

/-- The content of a node with the type of a collection. -/
def content (visit : Node → Construct Part) (fuel : Nat) : Node → Construct Content
  | .sequence _ .seq items => .list <$> items.mapM visit
  | .sequence _ .omap items => .pairs <$> pairParts visit items
  | .sequence _ .pairs items => .pairs <$> pairParts visit items
  | .mapping label .map written => .map <$> entryParts visit fuel label written
  | .mapping label .set written => do
    return .set ((← entryParts visit fuel label written).map Prod.fst)
  | _ => fail

/-- The content of a collection under a short form. -/
def shortContent (visit : Node → Construct Part) (fuel : Nat) : Node → Construct Content
  | .sequence _ _ items => .list <$> items.mapM visit
  | .mapping label _ written => .map <$> entryParts visit fuel label written
  | _ => fail

/-- A collection as a part. -/
def collectionPart (visit : (immediate : Bool) → Node → Construct Part) (fuel : Nat)
    (immediate : Bool) (label : Nat) (tag : Tag) (node : Node) : Construct Part := do
  match ← shared? label with
  | some part => return part
  | none =>
    match tag with
    | .short form =>
      atOnce label do
        return .call form.key (form.argument (← shortContent (visit true) fuel node))
    | tag =>
      if tag.isCollection then
        if immediate then atOnce label (content (visit true) fuel node) else postpone label node
      else if tag.isScalar then
        let value ← mappingScalar fuel tag node
        finish label (.single (.value value))
        return .value value
      else fail

/-- A node as a part, visited with everything under it if `immediate`. Nodes under each other that
are visited at once have different labels, so `fuel` need not exceed the number of labels by
much. -/
def visit : (fuel : Nat) → (immediate : Bool) → Node → Construct Part
  | 0, _, _ => fail
  | fuel + 1, immediate, node => do
    let node ← resolve node
    match node with
    | .scalar label _ text =>
      match ← tagOf node with
      | .short form => return .value (.map [(.str form.key, form.textArgument text)])
      | tag =>
        if tag.isCollection then collectionPart (visit fuel) fuel immediate label tag node
        else return .value (← lift (scalarValue tag text))
    | .sequence label tag _ => collectionPart (visit fuel) fuel immediate label tag node
    | .mapping label tag _ => collectionPart (visit fuel) fuel immediate label tag node
    | .alias _ => fail

/-- Visits the parts of the collections that wait, then those of the collections met on the way, and
so on. -/
def drain (size : Nat) : (fuel : Nat) → Construct Unit
  | 0 => return ()
  | fuel + 1 => do
    let waiting := (← get).waiting
    if !waiting.isEmpty then
      modify fun s => { s with waiting := [] }
      waiting.reverse.forM fun
        | .scalar .. => fail
        | .sequence label tag items => do
          finish label (← content (visit size false) size (.sequence label tag items))
        | .mapping label tag entries => do
          finish label (← content (visit size false) size (.mapping label tag entries))
        | .alias _ => fail
      drain size fuel

end Construct

/-- The root of a graph as a part, and the contents of its collections. -/
def NodeGraph.construct (graph : NodeGraph) : Except Fault (Part × List (Nat × Content)) := do
  let size := (graph.labels + 2) * (graph.labels + 2)
  let steps : Construct Part := do
    let root ← Construct.visit size false graph.root
    Construct.drain size (graph.labels + 1)
    return root
  let (root, s) ← (steps.run graph.anchored).run {}
  return (root, s.contents)

end StackScript.Yaml
