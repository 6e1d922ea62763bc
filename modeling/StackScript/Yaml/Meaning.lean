import StackScript.Yaml.Construction

/-!
# Values of YAML texts

The value that the contents of the collections of a text make up. A collection that is met inside
itself is linked to its own beginning.

## Main definitions

* `Yaml.Built`: a value with its open links.
* `Yaml.buildPart`: the value of a part.
* `Yaml.read`: the value of a text.
-/

namespace StackScript.Yaml

/-- A value with the labels of the collections around it that it is linked to. -/
structure Built where
  value : Value
  links : List Nat := []

private def linksOf (parts : List Built) : List Nat := parts.flatMap Built.links

/-- The value of a content, given the values of its parts. Of entries with the same key the last
value counts. -/
def buildContent (build : Part → Built) : Content → Built
  | .single part => build part
  | .list items =>
    let items := items.map build
    ⟨.list (items.map Built.value), linksOf items⟩
  | .map entries =>
    let entries := entries.map fun (key, part) => (key, build part)
    ⟨Value.ofEntries (entries.map fun (key, built) => (key, built.value)),
      linksOf (entries.map Prod.snd)⟩
  | .set keys => ⟨.set (Value.distinct keys), []⟩
  | .pairs items =>
    let items := items.map fun (first, second) => (build first, build second)
    ⟨.list (items.map fun (first, second) => .tuple [first.value, second.value]),
      linksOf (items.flatMap fun (first, second) => [first, second])⟩
  | .call key argument =>
    let built := buildContent build argument
    { built with value := .map [(.str key, built.value)] }

/-- A collection with the links to itself tied up. Every collection on the way from a link back to
its beginning contains itself, too, and can be recognised by its label. -/
def tie (label : Nat) (built : Built) : Built :=
  if built.links.isEmpty then built
  else ⟨.knot label built.value, built.links.filter (· != label)⟩

/-- The value of a part inside the collections of `enclosing`. Collections inside each other have
different labels, so `fuel` need not exceed their number. -/
def buildPart (contents : List (Nat × Content)) :
    (fuel : Nat) → (enclosing : List Nat) → Part → Built
  | _, _, .value v => ⟨v, []⟩
  | 0, _, .collection label => ⟨.link label, [label]⟩
  | fuel + 1, enclosing, .collection label =>
    if enclosing.contains label then ⟨.link label, [label]⟩
    else
      match contents.lookup label with
      | some content =>
        tie label (buildContent (buildPart contents fuel (label :: enclosing)) content)
      | none => ⟨.null, []⟩

/-- The value of a node graph. -/
def NodeGraph.value (graph : NodeGraph) : Except Fault Value := do
  let (root, contents) ← graph.construct
  return (buildPart contents (contents.length + 1) [] root).value

/-- The value of a text; an empty text denotes null. -/
def read (text : List Char) : Except Fault Value := do
  match ← readNodes text with
  | some graph => graph.value
  | none => return .null

end StackScript.Yaml
