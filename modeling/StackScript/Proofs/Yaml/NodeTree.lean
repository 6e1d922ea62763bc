import Mathlib.Data.List.Perm.Subperm
import StackScript.Yaml.Meaning

/-!
# Trees of nodes

A graph without aliases is a tree. If its nodes are scalars of the simple types, sequences and
mappings with strings as keys, nothing is merged or shared when it is built: the parts of a node are
visited one after the other, and the collections among them wait for their own parts.

## Main definitions

* `Yaml.Node.parts`, `Yaml.Node.subnodes`: the nodes in a node.
* `Yaml.Node.IsPlain`: nodes of the kinds above.
* `Yaml.Node.value`: the value of a tree.
* `Yaml.Construct.Does`: what a step of building does.

## Main results

* `Yaml.Construct.does_visit`: visiting a node.
* `Yaml.Construct.does_content`: visiting the parts of a node.
-/

namespace StackScript.Yaml

namespace Node

/-! ### Trees -/

/-- The label of a node; an alias has none of its own. -/
def label : Node → Nat
  | .scalar label _ _ => label
  | .sequence label _ _ => label
  | .mapping label _ _ => label
  | .alias _ => 0

/-- The items of a sequence, or the keys and values of a mapping. -/
def parts : Node → List Node
  | .sequence _ _ items => items
  | .mapping _ _ entries => entries.flatMap fun entry => [entry.1, entry.2]
  | _ => []

/-- Whether a node is a sequence or a mapping. -/
def isCollection : Node → Bool
  | .sequence .. => true
  | .mapping .. => true
  | _ => false

private theorem sizeOf_item_lt {item : Node} {items : List Node} (h : item ∈ items) (label : Nat)
    (tag : Tag) : sizeOf item < sizeOf (Node.sequence label tag items) := by
  have := List.sizeOf_lt_of_mem h
  simp only [sequence.sizeOf_spec]
  omega

private theorem sizeOf_entry_lt {entry : Node × Node} {entries : List (Node × Node)}
    (h : entry ∈ entries) (label : Nat) (tag : Tag) :
    sizeOf entry.1 < sizeOf (Node.mapping label tag entries) ∧
      sizeOf entry.2 < sizeOf (Node.mapping label tag entries) := by
  have := List.sizeOf_lt_of_mem h
  obtain ⟨key, value⟩ := entry
  simp only [mapping.sizeOf_spec, Prod.mk.sizeOf_spec] at this ⊢
  omega

private theorem sizeOf_lt_of_mem_parts {node part : Node} (h : part ∈ node.parts) :
    sizeOf part < sizeOf node := by
  cases node with
  | sequence label tag items => exact sizeOf_item_lt h label tag
  | mapping label tag entries =>
    obtain ⟨entry, hentry, hpart⟩ := List.mem_flatMap.1 h
    have hlt := sizeOf_entry_lt hentry label tag
    obtain rfl | rfl : part = entry.1 ∨ part = entry.2 := by simpa using hpart
    · exact hlt.1
    · exact hlt.2
  | _ => cases h

/-- What holds of a node if it holds of its parts holds of all nodes. -/
@[elab_as_elim]
theorem parts_induction {motive : Node → Prop}
    (step : ∀ node, (∀ part ∈ node.parts, motive part) → motive node) (node : Node) : motive node :=
  step node fun part _ => parts_induction step part
termination_by sizeOf node
decreasing_by exact sizeOf_lt_of_mem_parts ‹_›

/-- A node with the nodes in its parts. -/
def subnodes (node : Node) : List Node :=
  node :: node.parts.attach.flatMap fun part => part.1.subnodes
termination_by sizeOf node
decreasing_by exact sizeOf_lt_of_mem_parts part.2

/-- The value of a tree. -/
def value : Node → Value
  | .scalar _ tag text => (scalarValue tag text).toOption.getD .null
  | .sequence _ _ items => .list (items.map fun item => item.value)
  | .mapping _ _ entries =>
    Value.ofEntries (entries.map fun entry => (entry.1.value, entry.2.value))
  | .alias _ => .null
decreasing_by
  · exact sizeOf_item_lt ‹_› _ _
  · exact (sizeOf_entry_lt ‹_› _ _).1
  · exact (sizeOf_entry_lt ‹_› _ _).2

theorem subnodes_eq (node : Node) : node.subnodes = node :: node.parts.flatMap subnodes := by
  rw [subnodes]
  simp

theorem value_scalar {label : Nat} {tag : Tag} {text : List Char} {v : Value}
    (h : scalarValue tag text = .ok v) : (Node.scalar label tag text).value = v := by
  rw [value, h]
  rfl

@[simp]
theorem value_sequence (label : Nat) (tag : Tag) (items : List Node) :
    (Node.sequence label tag items).value = .list (items.map value) := by
  rw [value]

@[simp]
theorem value_mapping (label : Nat) (tag : Tag) (entries : List (Node × Node)) :
    (Node.mapping label tag entries).value =
      Value.ofEntries (entries.map fun entry => (entry.1.value, entry.2.value)) := by
  rw [value]

/-- A node as the construction takes it by itself: a scalar that has a value, a sequence, or a
mapping whose keys are strings. -/
def IsPlain : Node → Prop
  | .scalar _ tag text => tag.isScalar = true ∧ ∃ v, scalarValue tag text = .ok v
  | .sequence _ tag _ => tag = .seq
  | .mapping _ tag entries =>
    tag = .map ∧ ∀ entry ∈ entries, ∃ label text, entry.1 = .scalar label .str text
  | .alias _ => False

/-- A node as a part of a collection. -/
def part (node : Node) : Part :=
  if node.isCollection then .collection node.label else .value node.value

/-- What a collection is made of. -/
def content : Node → Content
  | .mapping _ _ entries => .map (entries.map fun entry => (entry.1.value, entry.2.part))
  | node => .list (node.parts.map part)

theorem parts_eq_nil {node : Node} (h : node.isCollection = false) : node.parts = [] := by
  cases node <;> simp_all [isCollection, parts]

/-- The nodes of some trees are their roots and the nodes of the trees below. -/
theorem flatMap_subnodes_perm (level : List Node) :
    (level.flatMap subnodes).Perm (level ++ (level.flatMap parts).flatMap subnodes) := by
  induction level with
  | nil => rfl
  | cons node level ih =>
    rw [List.flatMap_cons, subnodes_eq, List.flatMap_cons, List.flatMap_append, List.cons_append,
      List.cons_append]
    refine List.Perm.cons node ?_
    refine (ih.append_left _).trans ?_
    simp only [← List.append_assoc]
    exact List.perm_append_comm.append_right _

theorem flatMap_parts_filter (level : List Node) :
    (level.filter isCollection).flatMap parts = level.flatMap parts := by
  induction level with
  | nil => rfl
  | cons node level ih =>
    cases h : node.isCollection with
    | true => simp [h, ih]
    | false => simp [h, ih, parts_eq_nil h]

end Node

namespace Construction

/-- What has been built so far, after meeting nodes whose parts are visited later. -/
def meet (s : Construction) (nodes : List Node) : Construction :=
  { s with
    begun := ((nodes.filter Node.isCollection).map Node.label).reverse ++ s.begun
    waiting := (nodes.filter Node.isCollection).reverse ++ s.waiting }

theorem meet_append (s : Construction) (nodes more : List Node) :
    s.meet (nodes ++ more) = (s.meet nodes).meet more := by
  simp [meet]

/-- Nothing has been merged, and nothing is being built at once. -/
structure IsCalm (s : Construction) : Prop where
  active : s.active = []
  merged : s.merged = []

theorem IsCalm.meet {s : Construction} (h : s.IsCalm) (nodes : List Node) : (s.meet nodes).IsCalm :=
  ⟨h.active, h.merged⟩

theorem IsCalm.setWaiting {s : Construction} (h : s.IsCalm) (waiting : List Node) :
    IsCalm { s with waiting := waiting } :=
  ⟨h.active, h.merged⟩

/-- The nodes that none of what has been begun belongs to. -/
def IsNew (s : Construction) (nodes : List Node) : Prop :=
  (nodes.map Node.label).Nodup ∧ ∀ node ∈ nodes, node.label ∉ s.begun

theorem IsNew.split {s : Construction} {nodes more : List Node} (h : s.IsNew (nodes ++ more)) :
    s.IsNew nodes ∧ (s.meet nodes).IsNew more := by
  obtain ⟨hnodup, hbegun⟩ := h
  rw [List.map_append, List.nodup_append] at hnodup
  obtain ⟨hnodes, hmore, hapart⟩ := hnodup
  refine ⟨⟨hnodes, fun node h => hbegun node (List.mem_append_left _ h)⟩, hmore, fun node h => ?_⟩
  rw [meet, List.mem_append, List.mem_reverse, List.mem_map]
  rintro (⟨other, hother, heq⟩ | hold)
  · exact hapart _ (List.mem_map_of_mem (List.mem_of_mem_filter hother)) _
      (List.mem_map_of_mem h) heq
  · exact hbegun node (List.mem_append_right _ h) hold

end Construction

namespace Construct

variable {α β : Type} {anchored : List (String × Node)} {s s' s'' : Construction} {a : α} {b : β}

/-- A step of building leads from a state to a result and another state. -/
def Does (anchored : List (String × Node)) (m : Construct α) (s : Construction) (a : α)
    (s' : Construction) : Prop :=
  (m.run anchored).run s = .ok (a, s')

theorem Does.pure : Does anchored (pure a) s a s := rfl

theorem Does.bind {m : Construct α} {f : α → Construct β} (hm : Does anchored m s a s')
    (hf : Does anchored (f a) s' b s'') : Does anchored (m >>= f) s b s'' := by
  unfold Does at *
  rw [ReaderT.run_bind, StateT.run_bind, hm]
  exact hf

theorem Does.map {m : Construct α} {f : α → β} (hm : Does anchored m s a s') :
    Does anchored (f <$> m) s (f a) s' := by
  unfold Does at *
  rw [ReaderT.run_map, StateT.run_map, hm]
  rfl

/-! ### Meeting nodes -/

theorem does_tagOf {label : Nat} {tag : Tag} {text : List Char} (h : tag ≠ .value) :
    Does anchored (tagOf (.scalar label tag text)) s tag s := by
  have hget : Does anchored get s s s := rfl
  refine hget.bind ?_
  simp only [h, decide_false, Bool.false_and]
  exact .pure

theorem does_shared? {label : Nat} (hcalm : s.IsCalm) (hnew : label ∉ s.begun) :
    Does anchored (shared? label) s none s := by
  have hget : Does anchored get s s s := rfl
  refine hget.bind ?_
  rw [if_neg (by simpa using hnew), hcalm.active, if_neg (by simp)]
  exact .pure

theorem does_collectionPart {visit : Bool → Node → Construct Part} {fuel label : Nat} {tag : Tag}
    {node : Node} (hcalm : s.IsCalm) (hnew : label ∉ s.begun) (htag : tag = .seq ∨ tag = .map) :
    Does anchored (collectionPart visit fuel false label tag node) s (.collection label)
      { s with begun := label :: s.begun, waiting := node :: s.waiting } := by
  refine (does_shared? hcalm hnew).bind ?_
  obtain rfl | rfl := htag <;> rfl

theorem does_visit {fuel : Nat} {node : Node} (hplain : node.IsPlain) (hcalm : s.IsCalm)
    (hnew : s.IsNew [node]) :
    Does anchored (visit (fuel + 1) false node) s node.part (s.meet [node]) := by
  have hlabel : node.label ∉ s.begun := hnew.2 node (List.mem_singleton_self _)
  cases node with
  | scalar label tag text =>
    obtain ⟨htag, v, hv⟩ := hplain
    have hne : tag ≠ .value := by
      rintro rfl
      cases htag
    have hpart : (Node.scalar label tag text).part = .value v :=
      congrArg Part.value (Node.value_scalar hv)
    have hlift : Does anchored (lift (scalarValue tag text)) s v s := by rw [hv]; rfl
    have hresolve : Does anchored (resolve (.scalar label tag text)) s (.scalar label tag text) s :=
      rfl
    rw [hpart, visit]
    refine hresolve.bind ((does_tagOf hne).bind ?_)
    cases tag <;> first | exact hlift.bind .pure | cases htag
  | sequence label tag items =>
    exact does_collectionPart hcalm hlabel (.inl hplain)
  | mapping label tag entries =>
    exact does_collectionPart hcalm hlabel (.inr hplain.1)
  | _ => exact hplain.elim

theorem does_mapM_visit {fuel : Nat} {nodes : List Node} (hplain : ∀ node ∈ nodes, node.IsPlain)
    (hcalm : s.IsCalm) (hnew : s.IsNew nodes) :
    Does anchored (nodes.mapM (visit (fuel + 1) false)) s (nodes.map Node.part) (s.meet nodes) := by
  induction nodes generalizing s with
  | nil => exact .pure
  | cons node nodes ih =>
    obtain ⟨hnode, hnodes⟩ : s.IsNew [node] ∧ (s.meet [node]).IsNew nodes := hnew.split
    rw [List.mapM_cons, List.map_cons]
    refine (does_visit (hplain node List.mem_cons_self) hcalm hnode).bind ?_
    refine (ih (fun other h => hplain other (List.mem_cons_of_mem _ h)) (hcalm.meet _)
      hnodes).bind ?_
    rw [← Construction.meet_append]
    exact .pure

theorem does_entriesOf {label : Nat} {entries : List (Node × Node)} (hmerged : s.merged = []) :
    Does anchored (entriesOf label entries) s entries s := by
  have hget : Does anchored get s s s := rfl
  refine hget.bind ?_
  rw [hmerged]
  exact .pure

/-- Nothing is merged into a mapping whose keys are strings. -/
theorem does_flatten {fuel label index : Nat} {entries : List (Node × Node)}
    (hmerged : s.merged = [])
    (hkeys : ∀ entry ∈ entries, ∃ label text, entry.1 = .scalar label .str text)
    (hfuel : entries.length < fuel + index) (hpos : 0 < fuel) :
    Does anchored (flatten fuel label entries index []) s () s := by
  induction fuel generalizing index with
  | zero => omega
  | succ fuel ih =>
    rw [flatten]
    refine (does_entriesOf hmerged).bind ?_
    cases hentry : entries[index]? with
    | none => exact .pure
    | some entry =>
      obtain ⟨hlt, hget⟩ := List.getElem?_eq_some_iff.1 hentry
      obtain ⟨keyLabel, text, hkey⟩ := hkeys entry (hget ▸ List.getElem_mem hlt)
      dsimp only
      rw [hkey]
      exact (does_tagOf (by simp)).bind (ih (by omega) (by omega))

theorem does_entryParts {fuel size label : Nat} {entries : List (Node × Node)}
    (hplain : (Node.mapping label .map entries).IsPlain)
    (hparts : ∀ part ∈ (Node.mapping label .map entries).parts, part.IsPlain) (hcalm : s.IsCalm)
    (hnew : s.IsNew (Node.mapping label .map entries).parts) (hsize : entries.length < size) :
    Does anchored (entryParts (visit (fuel + 1) false) size label entries) s
      (entries.map fun entry => (entry.1.value, entry.2.part))
      (s.meet (Node.mapping label .map entries).parts) := by
  obtain ⟨-, hkeys⟩ := hplain
  refine (does_flatten hcalm.merged hkeys (by omega) (by omega)).bind ?_
  refine (does_entriesOf hcalm.merged).bind ?_
  clear hsize
  induction entries generalizing s with
  | nil => exact .pure
  | cons entry entries ih =>
    obtain ⟨key, value⟩ := entry
    obtain ⟨keyLabel, text, rfl⟩ := hkeys _ List.mem_cons_self
    rw [Node.parts, List.flatMap_cons] at hparts hnew ⊢
    rw [List.forall_mem_append] at hparts
    obtain ⟨hentry, hentries⟩ := hnew.split
    obtain ⟨hkey, hvalue⟩ : s.IsNew [.scalar keyLabel .str text] ∧
      (s.meet [.scalar keyLabel .str text]).IsNew [value] := hentry.split
    have hplainKey : (Node.scalar keyLabel .str text).IsPlain := hparts.1 _ (by simp)
    have hkeyValue : (Node.scalar keyLabel .str text).value = .str (String.ofList text) :=
      Node.value_scalar rfl
    have hkeyPart : (Node.scalar keyLabel .str text).part = .value (.str (String.ofList text)) :=
      congrArg Part.value hkeyValue
    rw [List.mapM_cons, Construction.meet_append]
    refine Does.bind (a := ((Node.scalar keyLabel .str text).value, value.part)) ?_
      ((ih hparts.2 (hcalm.meet _) hentries
        fun other h => hkeys other (List.mem_cons_of_mem _ h)).bind .pure)
    refine (does_visit hplainKey hcalm hkey).bind ?_
    rw [hkeyPart, hkeyValue]
    exact (does_visit (hparts.1 value (by simp)) (hcalm.meet _) hvalue).bind .pure

theorem does_content {fuel size : Nat} {node : Node} (hcollection : node.isCollection = true)
    (hplain : node.IsPlain) (hparts : ∀ part ∈ node.parts, part.IsPlain) (hcalm : s.IsCalm)
    (hnew : s.IsNew node.parts) (hsize : node.parts.length < size) :
    Does anchored (content (visit (fuel + 1) false) size node) s node.content
      (s.meet node.parts) := by
  cases node with
  | sequence label tag items =>
    obtain rfl : tag = .seq := hplain
    exact (does_mapM_visit hparts hcalm hnew).map
  | mapping label tag entries =>
    obtain ⟨rfl, hkeys⟩ := hplain
    have hlength : entries.length ≤ (Node.mapping label .map entries).parts.length := by
      simp [Node.parts, List.length_flatMap, Nat.le_mul_of_pos_right]
    exact (does_entryParts ⟨rfl, hkeys⟩ hparts hcalm hnew (by omega)).map
  | _ => cases hcollection

end Construct

end StackScript.Yaml
