import StackScript.Proofs.Outcome
import StackScript.Proofs.Yaml.Levels
import StackScript.Proofs.Yaml.Nodes
import StackScript.Proofs.Yaml.Scanned

/-!
# Nodes of JSON texts

The tokens of a tree are read as a tree of nodes, if all keys are marked as such. Its labels are the
numbers from the first to the last, in the order of the text, so they are all different.

## Main definitions

* `Yaml.Forest`: nodes whose labels are consecutive.
* `Yaml.Nodes.Gives`: what tokens are read as.

## Main results

* `Yaml.Nodes.gives_node`: the tokens of a tree are read as a tree of nodes.
-/

namespace StackScript.Yaml

open Value (keyed)
open TokenState.Brackets (intercalate_eq length_enclose length_enclose_of_mem)

/-! ### Forests -/

/-- Nodes whose labels, with those of the nodes in them, are consecutive numbers. -/
structure Forest (first last : Nat) (nodes : List Node) : Prop where
  labels : (nodes.flatMap Node.subnodes).map Node.label = List.range' first (last - first)
  le : first ≤ last
  plain : ∀ node ∈ nodes.flatMap Node.subnodes, node.IsPlain

namespace Forest

variable {first middle last : Nat} {nodes more : List Node}

theorem nil : Forest first first [] := ⟨by simp, le_rfl, by simp⟩

theorem append (h : Forest first middle nodes) (hmore : Forest middle last more) :
    Forest first last (nodes ++ more) where
  labels := by
    have hle := h.le
    have hle' := hmore.le
    obtain ⟨n, rfl⟩ := Nat.exists_eq_add_of_le hle
    obtain ⟨m, rfl⟩ := Nat.exists_eq_add_of_le hle'
    rw [List.flatMap_append, List.map_append, h.labels, hmore.labels, Nat.add_sub_cancel_left,
      Nat.add_sub_cancel_left, Nat.add_assoc, Nat.add_sub_cancel_left, List.range'_append_1]
  le := h.le.trans hmore.le
  plain := by
    rw [List.flatMap_append, List.forall_mem_append]
    exact ⟨h.plain, hmore.plain⟩

/-- A node over a forest, with the label before. -/
theorem node (node : Node) (h : Forest (node.label + 1) last node.parts) (hplain : node.IsPlain) :
    Forest node.label last [node] where
  labels := by
    have hle := h.le
    obtain ⟨n, rfl⟩ := Nat.exists_eq_add_of_le hle
    have hcount : node.label + 1 + n - node.label = n + 1 := by omega
    rw [List.flatMap_singleton, Node.subnodes_eq, List.map_cons, h.labels, hcount,
      Nat.add_sub_cancel_left, List.range'_succ]
  le := (Nat.le_succ _).trans h.le
  plain := by
    rw [List.flatMap_singleton, Node.subnodes_eq, List.forall_mem_cons]
    exact ⟨hplain, h.plain⟩

theorem nodup (h : Forest first last nodes) :
    ((nodes.flatMap Node.subnodes).map Node.label).Nodup := by
  rw [h.labels]
  exact List.nodup_range'

end Forest

/-- Only types of scalars give values. -/
theorem isScalar_of_scalarValue {tag : Tag} {text : List Char} {v : Value}
    (h : scalarValue tag text = .ok v) : tag.isScalar = true := by
  cases tag <;> first | rfl | cases h

namespace Nodes

variable {α β : Type}

/-- Tokens are read as a result that is made of a forest, whatever follows them. -/
def Gives (m : Nodes α) (tokens : List Token) (nodesOf : α → List Node) (Q : α → Prop) : Prop :=
  ∀ ⦃s : NodeState⦄ ⦃rest : List Token⦄, s.tokens = tokens ++ rest →
    ∃ a last, Does m s a (s.after rest last) ∧ Forest s.nextLabel last (nodesOf a) ∧ Q a

theorem Gives.imp {m : Nodes α} {tokens : List Token} {nodesOf : α → List Node} {Q Q' : α → Prop}
    (h : Gives m tokens nodesOf Q) (himp : ∀ a, Q a → Q' a) : Gives m tokens nodesOf Q' := by
  intro s rest hs
  obtain ⟨a, last, hdoes, hforest, hq⟩ := h hs
  exact ⟨a, last, hdoes, hforest, himp a hq⟩

section List

variable {item : Nodes α} {close : Token} {nodesOf : α → List Node} {tokensOf : β → List Token}
  {Q : β → α → Prop}

/-- A part between brackets is read where the closing bracket may stand. -/
private theorem exists_flowPart {x : β} {s : NodeState} {more : List Token}
    (h : Gives item (tokensOf x) nodesOf (Q x)) (hfirst : ∃ t ts, tokensOf x = t :: ts ∧ t ≠ close)
    (hs : s.tokens = tokensOf x ++ more) :
    ∃ a last, Forest s.nextLabel last (nodesOf a) ∧ Q x a ∧ Does (accept close) s false s ∧
      Does item s a (s.after more last) := by
  obtain ⟨a, last, hitem, hforest, hq⟩ := h hs
  obtain ⟨t, ts, htokens, hne⟩ := hfirst
  rw [htokens] at hs
  exact ⟨a, last, hforest, hq, does_accept_of_ne hs hne, hitem⟩

/-- What follows a first part between brackets. -/
private theorem exists_flowRest {xs : List β} {done : List α} {fuel : Nat} {s : NodeState}
    {rest : List Token} (h : ∀ x ∈ xs, Gives item (tokensOf x) nodesOf (Q x))
    (hfirst : ∀ x ∈ xs, ∃ t ts, tokensOf x = t :: ts ∧ t ≠ close)
    (hclose : close ≠ .flowEntry) (hdone : done ≠ []) (hfuel : xs.length < fuel)
    (hs : s.tokens = xs.flatMap (fun x => .flowEntry :: tokensOf x) ++ close :: rest) :
    ∃ as last, Forest s.nextLabel last (as.flatMap nodesOf) ∧ List.Forall₂ Q xs as ∧
      Does (flowList item close done fuel) s (done.reverse ++ as) (s.after rest last) := by
  induction fuel generalizing xs done s with
  | zero => omega
  | succ fuel ih =>
    rw [flowList]
    cases xs with
    | nil =>
      refine ⟨[], s.nextLabel, .nil, .nil, (does_accept hs).bind ?_⟩
      rw [if_pos rfl, List.append_nil]
      exact .pure
    | cons x xs =>
      rw [List.forall_mem_cons] at h hfirst
      rw [List.flatMap_cons, List.cons_append, List.cons_append, List.append_assoc] at hs
      obtain ⟨a, middle, hforest, hq, hopen, hitem⟩ := exists_flowPart (s := s.after _ s.nextLabel)
        h.1 hfirst.1 rfl
      obtain ⟨as, last, hforest', hqs, hlist⟩ := ih (s := s.after _ middle) h.2 hfirst.2
        (List.cons_ne_nil a done) (by simpa using hfuel) rfl
      rw [List.reverse_cons, List.append_assoc, List.singleton_append] at hlist
      refine ⟨a :: as, last, hforest.append hforest', .cons hq hqs, ?_⟩
      refine (does_accept_of_ne hs hclose.symm).bind ?_
      rw [if_neg (by simp), if_pos (by simpa using hdone)]
      exact (does_accept hs).bind (hopen.bind (hitem.bind hlist))

/-- What stands between brackets. -/
private theorem gives_flowList (close : Token) (fuel : Nat) {xs : List β}
    (h : ∀ x ∈ xs, Gives item (tokensOf x) nodesOf (Q x))
    (hfirst : ∀ x ∈ xs, ∃ t ts, tokensOf x = t :: ts ∧ t ≠ close)
    (hclose : close ≠ .flowEntry) (hfuel : xs.length < fuel) :
    Gives (flowList item close [] fuel)
      (List.intercalate [.flowEntry] (xs.map tokensOf) ++ [close])
      (fun as => as.flatMap nodesOf) fun as => List.Forall₂ Q xs as := by
  intro s rest hs
  obtain ⟨fuel, rfl⟩ : ∃ n, fuel = n + 1 := Nat.exists_eq_succ_of_ne_zero (by omega)
  rw [flowList]
  cases xs with
  | nil => exact ⟨[], s.nextLabel, (does_accept hs).bind .pure, .nil, .nil⟩
  | cons x xs =>
    rw [List.forall_mem_cons] at h hfirst
    have htokens : s.tokens = tokensOf x ++
        (xs.flatMap (fun x => .flowEntry :: tokensOf x) ++ close :: rest) := by
      rw [hs, intercalate_eq, List.append_assoc, List.append_assoc]
      rfl
    obtain ⟨a, middle, hforest, hq, hopen, hitem⟩ := exists_flowPart h.1 hfirst.1 htokens
    obtain ⟨as, last, hforest', hqs, hlist⟩ := exists_flowRest (s := s.after _ middle) h.2 hfirst.2
      hclose (List.cons_ne_nil a []) (by simpa using hfuel) rfl
    refine ⟨a :: as, last, ?_, hforest.append hforest', .cons hq hqs⟩
    exact hopen.bind (hopen.bind (hitem.bind hlist))

end List

variable {size fuel : Nat} {place : Place} {tokens : List Token} {text : List Char}
  {readAt : Place → Nodes Node}

/-- A scalar. -/
theorem does_scalar {s : NodeState} {plain : Bool} {rest : List Token}
    (hs : s.tokens = .scalar text plain :: rest) :
    Does (node size (fuel + 1) place) s (.scalar s.nextLabel (scalarTag none plain text) text)
      (s.after rest (s.nextLabel + 1)) :=
  does_node hs rfl ((does_advance hs).bind (does_newLabel.bind .pure))

theorem gives_scalar {plain : Bool} {v : Value}
    (hv : scalarValue (scalarTag none plain text) text = .ok v) :
    Gives (node size (fuel + 1) place) [.scalar text plain] (fun n => [n])
      fun n => n.value = v := by
  intro s rest hs
  exact ⟨_, _, does_scalar hs,
    Forest.node (.scalar s.nextLabel _ text) .nil ⟨isScalar_of_scalarValue hv, v, hv⟩,
    Node.value_scalar hv⟩

/-- An item of a sequence. -/
theorem gives_flowItem {Q : Node → Prop} (h : Gives (readAt .flow) tokens (fun n => [n]) Q)
    (hfirst : ∃ t ts, tokens = t :: ts ∧ t ≠ .key) :
    Gives (flowItem readAt) tokens (fun n => [n]) Q := by
  intro s rest hs
  obtain ⟨n, last, hnode, hforest, hq⟩ := h hs
  obtain ⟨t, ts, rfl, hne⟩ := hfirst
  exact ⟨n, last, (does_accept_of_ne hs hne).bind hnode, hforest, hq⟩

/-- An entry of a mapping, whose key is a string. -/
theorem gives_flowPair {Q : Node → Prop}
    (h : Gives (node size (fuel + 1) .flow) tokens (fun n => [n]) Q)
    (hfirst : ∃ t ts, tokens = t :: ts ∧ t ∉ [Token.flowEntry, .flowMappingEnd]) :
    Gives (flowPair (node size (fuel + 1))) (.key :: .scalar text false :: .value :: tokens)
      (fun entry => [entry.1, entry.2])
      fun entry => (∃ label, entry.1 = .scalar label .str text) ∧ Q entry.2 := by
  intro s rest hs
  obtain ⟨t, ts, rfl, hne⟩ := hfirst
  have hkey := does_accept hs
  obtain ⟨n, last, hnode, hforest, hq⟩ := h (s := s.after _ (s.nextLabel + 1)) rfl
  have hvalue : Does (flowValue (node size (fuel + 1)) .flowMappingEnd)
      (s.after _ (s.nextLabel + 1)) n (s.after rest last) :=
    (does_accept rfl).bind (does_nodeUnless rfl hne hnode)
  refine ⟨(.scalar s.nextLabel .str text, n), last, ?_, ?_, ⟨_, rfl⟩, hq⟩
  · exact hkey.bind ((does_nodeUnless rfl (by simp) (does_scalar rfl)).bind (hvalue.bind .pure))
  · exact (Forest.node (.scalar s.nextLabel .str text) .nil ⟨rfl, _, rfl⟩).append hforest

theorem gives_sequence {Q : List Node → Prop}
    (h : Gives (flowList (flowItem (node size fuel)) .flowSequenceEnd [] size) tokens
      (fun items => items.flatMap fun n => [n]) Q) :
    Gives (node size (fuel + 1) place) (.flowSequenceStart :: tokens) (fun n => [n])
      fun n => ∃ label items, n = .sequence label .seq items ∧ Q items := by
  intro s rest hs
  obtain ⟨items, last, hitems, hforest, hq⟩ := h (s := s.after _ (s.nextLabel + 1)) rfl
  refine ⟨.sequence s.nextLabel .seq items, last, does_node hs rfl ?_, ?_, _, _, rfl, hq⟩
  · exact (does_advance hs).bind (does_newLabel.bind (hitems.bind .pure))
  · simp only [List.flatMap_singleton'] at hforest
    exact Forest.node (.sequence s.nextLabel .seq items) hforest rfl

theorem gives_mapping {Q : List (Node × Node) → Prop}
    (h : Gives (flowList (flowPair (node size fuel)) .flowMappingEnd [] size) tokens
      (fun entries => entries.flatMap fun entry => [entry.1, entry.2]) Q)
    (hkeys : ∀ entries, Q entries →
      ∀ entry ∈ entries, ∃ label text, entry.1 = .scalar label .str text) :
    Gives (node size (fuel + 1) place) (.flowMappingStart :: tokens) (fun n => [n])
      fun n => ∃ label entries, n = .mapping label .map entries ∧ Q entries := by
  intro s rest hs
  obtain ⟨entries, last, hentries, hforest, hq⟩ := h (s := s.after _ (s.nextLabel + 1)) rfl
  refine ⟨.mapping s.nextLabel .map entries, last, does_node hs rfl ?_, ?_, _, _, rfl, hq⟩
  · exact (does_advance hs).bind (does_newLabel.bind (hentries.bind .pure))
  · exact Forest.node (.mapping s.nextLabel .map entries) hforest ⟨rfl, hkeys entries hq⟩

end Nodes

/-! ### Trees -/

section Trees

variable (read : List Char → Except Fault (List Char))

/-- The scalar that a scalar is read as. -/
def reread : Scalar → Scalar
  | .str s => .str (String.ofList (textRead read s.toList))
  | s => rereadWord s

/-- Whether all keys of a tree fit. -/
def fitsTree (v : Value) : Bool := v.all (fun _ => true) fun k => TokenState.fitsKey k.toList

theorem exists_jsonTokens_scalar (s : Scalar) :
    ∃ text plain, jsonTokens read (.scalar s) = [.scalar text plain] := by
  by_cases hs : ∀ text, s ≠ .str text
  · exact ⟨_, _, jsonTokens_scalar read hs⟩
  · obtain ⟨str, rfl⟩ : ∃ str, s = .str str := by simpa using hs
    exact ⟨_, _, jsonTokens_str read str⟩

theorem exists_jsonTokens_eq {v : Value} (htree : v.isTree = true) :
    ∃ t ts, jsonTokens read v = t :: ts ∧ Nodes.startsContent t = true := by
  induction v, htree using Value.tree_induction with
  | scalar s =>
    obtain ⟨text, plain, htokens⟩ := exists_jsonTokens_scalar read s
    exact ⟨_, _, htokens, rfl⟩
  | list items _ _ => exact ⟨_, _, jsonTokens_list read items, rfl⟩
  | map fields _ _ => exact ⟨_, _, jsonTokens_keyed read fields, rfl⟩

private theorem map_eq_of_forall₂ {α β γ : Type} {R : α → β → Prop} {f : α → γ} {g : β → γ}
    {xs : List α} {ys : List β} (h : List.Forall₂ R xs ys) (hR : ∀ x y, R x y → g y = f x) :
    ys.map g = xs.map f := by
  induction h with
  | nil => rfl
  | cons hxy _ ih => rw [List.map_cons, List.map_cons, hR _ _ hxy, ih]

namespace Nodes

variable {read} {size fuel : Nat} (place : Place)

theorem gives_list {items : List Value} (htree : (Value.list items).isTree = true)
    (h : ∀ item ∈ items, Gives (node size fuel .flow) (jsonTokens read item) (fun n => [n])
      fun n => n.value = item.mapScalars (reread read))
    (hsize : (jsonTokens read (.list items)).length ≤ size) :
    Gives (node size (fuel + 1) place) (jsonTokens read (.list items)) (fun n => [n])
      fun n => n.value = (Value.list items).mapScalars (reread read) := by
  have hfirst (other : Token) (hother : startsContent other = false) (item : Value)
      (hitem : item ∈ items) : ∃ t ts, jsonTokens read item = t :: ts ∧ t ≠ other := by
    obtain ⟨t, ts, heq, ht⟩ := exists_jsonTokens_eq read (Value.isTree_list_iff.1 htree item hitem)
    exact ⟨t, ts, heq, by rintro rfl; rw [hother] at ht; cases ht⟩
  have hne (item : Value) (hitem : item ∈ items) : jsonTokens read item ≠ [] := by
    obtain ⟨t, ts, heq, -⟩ := hfirst .key rfl item hitem
    exact heq ▸ List.cons_ne_nil t ts
  have hlength := length_enclose .sequence hne
  rw [jsonTokens_list] at hsize ⊢
  have hitems := gives_flowList .flowSequenceEnd size
    (fun item hitem => gives_flowItem (h item hitem) (hfirst .key rfl item hitem))
    (hfirst .flowSequenceEnd rfl) (by simp) (by omega)
  refine (gives_sequence hitems).imp ?_
  rintro _ ⟨label, nodes, rfl, hq⟩
  rw [Node.value_sequence, Value.mapScalars_list, map_eq_of_forall₂ hq fun _ _ heq => heq]

theorem gives_map {fields : List (String × Value)}
    (htree : (Value.map (keyed fields)).isTree = true)
    (hkeys : ∀ field ∈ fields, TokenState.fitsKey field.1.toList = true ∧
      textRead read field.1.toList = field.1.toList)
    (h : ∀ field ∈ fields, Gives (node size (fuel + 1) .flow) (jsonTokens read field.2)
      (fun n => [n]) fun n => n.value = field.2.mapScalars (reread read))
    (hsize : (jsonTokens read (.map (keyed fields))).length ≤ size) :
    Gives (node size (fuel + 2) place) (jsonTokens read (.map (keyed fields))) (fun n => [n])
      fun n => n.value = (Value.map (keyed fields)).mapScalars (reread read) := by
  rw [Value.isTree_keyed_iff] at htree
  have htokens (field : String × Value) (hfield : field ∈ fields) : fieldTokens read field =
      .key :: .scalar field.1.toList false :: .value :: jsonTokens read field.2 := by
    obtain ⟨hfits, htext⟩ := hkeys field hfield
    rw [fieldTokens, TokenState.keyTokens, if_pos hfits, htext]
    rfl
  have hfirst (field : String × Value) (hfield : field ∈ fields) :
      ∃ t ts, jsonTokens read field.2 = t :: ts ∧ t ∉ [Token.flowEntry, .flowMappingEnd] := by
    obtain ⟨t, ts, heq, ht⟩ := exists_jsonTokens_eq read (htree.2 field hfield)
    exact ⟨t, ts, heq, by rintro hmem; cases t <;> simp_all [startsContent]⟩
  have hpair (field : String × Value) (hfield : field ∈ fields) :
      Gives (flowPair (node size (fuel + 1))) (fieldTokens read field)
        (fun entry => [entry.1, entry.2])
        fun entry => (∃ label, entry.1 = .scalar label .str field.1.toList) ∧
          entry.2.value = field.2.mapScalars (reread read) := by
    rw [htokens field hfield]
    exact gives_flowPair (h field hfield) (hfirst field hfield)
  have hlength := length_enclose (f := fieldTokens read) .mapping fun field hfield =>
    htokens field hfield ▸ List.cons_ne_nil _ _
  rw [jsonTokens_keyed] at hsize ⊢
  have hentries := gives_flowList .flowMappingEnd size hpair
    (fun field hfield => ⟨_, _, htokens field hfield, by simp⟩) (by simp) (by omega)
  refine (gives_mapping hentries fun entries hq entry hentry => ?_).imp ?_
  · obtain ⟨field, -, ⟨label, hlabel⟩, -⟩ := exists_of_mem_right hq hentry
    exact ⟨label, _, hlabel⟩
  · rintro _ ⟨label, entries, rfl, hq⟩
    have hvalues : entries.map (fun entry => (entry.1.value, entry.2.value)) =
        fields.map fun field => (.str field.1, field.2.mapScalars (reread read)) := by
      refine map_eq_of_forall₂ hq fun field entry ⟨⟨keyLabel, hkey⟩, hvalue⟩ => ?_
      rw [hkey, hvalue, Node.value_scalar rfl, String.ofList_toList]
    have hnodup : ((fields.map fun field => (field.1, field.2.mapScalars (reread read))).map
        Prod.fst).Nodup := by
      rw [List.map_map]
      exact htree.1
    rw [Node.value_mapping, hvalues, Value.mapScalars_keyed, ← Value.ofFields_eq_map hnodup,
      Value.ofFields, List.map_map]
    rfl

variable (hkey : ∀ k, TokenState.fitsKey k = true → textRead read k = k)
include hkey

/-- **The tokens of a tree are read as a tree of nodes.** -/
theorem gives_node {v : Value} (htree : v.isTree = true) (hwritable : v.isWritable = true)
    (hfits : fitsTree v = true) (hsize : (jsonTokens read v).length ≤ size)
    (hfuel : (jsonTokens read v).length ≤ fuel) :
    Gives (node size fuel place) (jsonTokens read v) (fun n => [n])
      fun n => n.value = v.mapScalars (reread read) := by
  induction v, htree using Value.tree_induction generalizing fuel place with
  | scalar s =>
    rw [Value.mapScalars_scalar]
    by_cases hs : ∀ text, s ≠ .str text
    · rw [jsonTokens_scalar read hs] at hfuel ⊢
      obtain ⟨fuel, rfl⟩ := Nat.exists_eq_add_of_le' hfuel
      have hreread : reread read s = rereadWord s := by
        cases s with
        | str text => exact absurd rfl (hs text)
        | _ => rfl
      rw [hreread]
      exact gives_scalar (scalarValue_word hs hwritable)
    · obtain ⟨str, rfl⟩ : ∃ str, s = .str str := by simpa using hs
      rw [jsonTokens_str] at hfuel ⊢
      obtain ⟨fuel, rfl⟩ := Nat.exists_eq_add_of_le' hfuel
      exact gives_scalar rfl
  | list items htree ih =>
    rw [Value.isWritable_list_iff] at hwritable
    rw [fitsTree, Value.all_list, List.all_eq_true] at hfits
    have hparts (item : Value) (hitem : item ∈ items) :
        (jsonTokens read item).length + 2 ≤ (jsonTokens read (.list items)).length := by
      rw [jsonTokens_list]
      exact length_enclose_of_mem .sequence hitem
    have hpos : 1 ≤ (jsonTokens read (.list items)).length := by
      simp [jsonTokens_list, TokenState.Brackets.enclose]
    obtain ⟨fuel, rfl⟩ : ∃ n, fuel = n + 1 := Nat.exists_eq_add_of_le' (hpos.trans hfuel)
    refine gives_list place htree (fun item hitem => ?_) hsize
    have := hparts item hitem
    exact ih item hitem .flow (hwritable item hitem) (hfits item hitem) (by omega) (by omega)
  | map fields htree ih =>
    rw [Value.isWritable_map_iff] at hwritable
    rw [fitsTree, Value.all_keyed, List.all_eq_true] at hfits
    have hparts (field : String × Value) (hfield : field ∈ fields) :
        (jsonTokens read field.2).length + 2 ≤ (jsonTokens read (.map (keyed fields))).length := by
      have hlength := length_enclose_of_mem (f := fieldTokens read) .mapping hfield
      rw [fieldTokens, List.length_append] at hlength
      rw [jsonTokens_keyed]
      omega
    have hpos : 2 ≤ (jsonTokens read (.map (keyed fields))).length := by
      simp [jsonTokens_keyed, TokenState.Brackets.enclose]
    obtain ⟨fuel, rfl⟩ : ∃ n, fuel = n + 2 := Nat.exists_eq_add_of_le' (hpos.trans hfuel)
    refine gives_map place htree (fun field hfield => ?_) (fun field hfield => ?_) hsize
    · have hfits := (Bool.and_eq_true _ _ ▸ hfits field hfield).1
      exact ⟨hfits, hkey _ hfits⟩
    · have := hparts field hfield
      have hfits := (Bool.and_eq_true _ _ ▸ hfits field hfield).2
      exact ih field hfield .flow (hwritable _ (List.mem_map_of_mem hfield)).2 hfits (by omega)
        (by omega)

omit hkey in
/-- Nothing comes after a document. -/
theorem does_finish (size : Nat) {s : NodeState} (hs : s.tokens = [.streamEnd]) :
    ∃ s', s'.anchored = s.anchored ∧ s'.nextLabel = s.nextLabel ∧ Does (finish size) s () s' := by
  have hmodify : Does (modify fun s => { s with
      tokens := s.tokens.dropWhile (· = .documentEnd), handles := [] }) s ()
      { s with tokens := s.tokens.dropWhile (· = .documentEnd), handles := [] } := rfl
  have hdrop : s.tokens.dropWhile (· = .documentEnd) = [.streamEnd] := by
    rw [hs]
    rfl
  refine ⟨_, ?_, ?_, hmodify.bind ((does_accept hdrop).bind .pure)⟩ <;> rfl

/-- The tokens of a document are read as its root. -/
theorem does_document {fields : List (String × Value)}
    (htree : (Value.map (keyed fields)).isTree = true)
    (hwritable : (Value.map (keyed fields)).isWritable = true)
    (hfits : fitsTree (.map (keyed fields)) = true) :
    ∃ root s, s.anchored = [] ∧ Forest 0 s.nextLabel [root] ∧
      root.value = (Value.map (keyed fields)).mapScalars (reread read) ∧
      Does document
        { tokens := jsonTokens read (.map (keyed fields)) ++ [.streamEnd], fault := none }
        (some root) s := by
  obtain ⟨s, hs⟩ : ∃ s : NodeState,
    s = { tokens := jsonTokens read (.map (keyed fields)) ++ [.streamEnd], fault := none } :=
    ⟨_, rfl⟩
  have htokens : s.tokens = jsonTokens read (.map (keyed fields)) ++ [.streamEnd] := by rw [hs]
  have hsize : (jsonTokens read (.map (keyed fields))).length ≤ s.tokens.length + 1 := by
    rw [htokens, List.length_append]
    omega
  obtain ⟨root, last, hroot, hforest, hvalue⟩ :=
    gives_node .block hkey htree hwritable hfits hsize hsize htokens
  obtain ⟨s', hanchored, hlabel, hfinish⟩ :=
    does_finish (s.tokens.length + 1) (s := s.after [.streamEnd] last) rfl
  have hget : Does get s s s := rfl
  have hpeek : Does peek s .flowMappingStart s := by
    rw [jsonTokens_keyed] at htokens
    exact does_peek htokens
  refine ⟨root, s', ?_, ?_, hvalue, hs ▸ hget.bind (hpeek.bind (hroot.bind (hfinish.bind .pure)))⟩
  · rw [hanchored, hs]
    rfl
  · rw [hlabel]
    rw [hs] at hforest
    exact hforest

end Nodes

variable {read} in
/-- The text of a document whose strings and keys can be read. -/
theorem read_text (hread : ∀ str, ReadsAs str (read str))
    (hkey : ∀ k, TokenState.fitsKey k = true → textRead read k = k)
    {fields : List (String × Value)} (htree : (Value.map (keyed fields)).isTree = true)
    (hwritable : (Value.map (keyed fields)).isWritable = true)
    (hfits : fitsTree (.map (keyed fields)) = true)
    (hadmitted : isAdmittedTree (.map (keyed fields)) = true)
    (hok : isReadTree read (.map (keyed fields)) = true) :
    Yaml.read (Json.text 0 (.map (keyed fields)) ++ ['\n']) =
      .ok ((Value.map (keyed fields)).mapScalars (reread read)) := by
  obtain ⟨root, s, hanchored, hforest, hvalue, hdoes⟩ :=
    Nodes.does_document hkey htree hwritable hfits
  have hnodes : readNodes (Json.text 0 (.map (keyed fields)) ++ ['\n']) =
      .ok (some ⟨root, [], s.nextLabel⟩) := by
    rw [readNodes, tokens_text_eq hread htree hwritable hadmitted hok]
    refine (congrArg (· >>= _) hdoes).trans ?_
    rw [← hanchored]
    rfl
  have hlabels := hforest.labels
  have hplain := hforest.plain
  have hnodup := hforest.nodup
  rw [List.flatMap_singleton] at hlabels hplain hnodup
  have hlength := congrArg List.length hlabels
  rw [List.length_map, List.length_range'] at hlength
  rw [Yaml.read, hnodes]
  refine (NodeGraph.value_eq hplain hnodup hlength.le).trans ?_
  rw [hvalue]

end Trees

end StackScript.Yaml
