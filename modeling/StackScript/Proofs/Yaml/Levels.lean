import Mathlib.Data.List.Perm.Subperm
import StackScript.Proofs.Yaml.NodeTree
import StackScript.Yaml.Meaning

/-!
# Building trees level by level

When a collection is met, its parts are left for later, so a tree is built from level to level. At
the end every collection has its content, and the value that the contents make up can be given by
recursion over the tree.

## Main definitions

* `Yaml.Construction.AtLevel`: the state between two levels.
* `Yaml.Construction.next`: what is built at a level.

## Main results

* `Yaml.Construction.AtLevel.atLevel_next`: the state at the level below.
* `Yaml.Construct.does_drain`: building a tree to its end.
* `Yaml.NodeGraph.value_eq`: the value of a graph that is a tree.
-/

namespace StackScript.Yaml

/-! ### Levels -/

namespace Construction

/-- What has been built so far, after visiting the parts of a collection. -/
def complete (s : Construction) (node : Node) : Construction :=
  { s.meet node.parts with
    contents := (node.label, node.content) :: s.contents
    begun := node.label :: (s.meet node.parts).begun
    active := s.active.filter (· != node.label) }

theorem IsCalm.complete {s : Construction} (h : s.IsCalm) (node : Node) :
    (s.complete node).IsCalm :=
  ⟨by simp [Construction.complete, h.active], h.merged⟩

theorem IsNew.complete {s : Construction} {node : Node} {nodes : List Node}
    (h : s.IsNew (node.parts ++ nodes)) (hlabel : node.label ∉ nodes.map Node.label) :
    (s.complete node).IsNew nodes := by
  obtain ⟨hnodup, hbegun⟩ := h.split.2
  refine ⟨hnodup, fun other hother => ?_⟩
  rw [Construction.complete, List.mem_cons, not_or]
  exact ⟨fun heq => hlabel (heq ▸ List.mem_map_of_mem hother), hbegun other hother⟩

variable (s : Construction) (level : List Node)

theorem contents_foldl_complete :
    (level.foldl complete s).contents =
      (level.map fun node => (node.label, node.content)).reverse ++ s.contents := by
  induction level generalizing s with
  | nil => rfl
  | cons node level ih => simp [ih, complete]

theorem waiting_foldl_complete :
    (level.foldl complete s).waiting =
      ((level.flatMap Node.parts).filter Node.isCollection).reverse ++ s.waiting := by
  induction level generalizing s with
  | nil => rfl
  | cons node level ih => simp [ih, complete, meet]

theorem mem_begun_foldl_complete {l : Nat} (h : l ∈ (level.foldl complete s).begun) :
    l ∈ s.begun ∨ l ∈ (level ++ level.flatMap Node.parts).map Node.label := by
  induction level generalizing s with
  | nil => exact .inl h
  | cons node level ih =>
    obtain hold | hnew := ih _ h
    · rw [complete, meet, List.mem_cons, List.mem_append, List.mem_reverse, List.mem_map] at hold
      obtain rfl | ⟨other, hother, rfl⟩ | hold := hold
      · simp
      · have := List.mem_of_mem_filter hother
        grind
      · exact .inl hold
    · grind

theorem IsCalm.foldl_complete {s : Construction} (h : s.IsCalm) (level : List Node) :
    (level.foldl Construction.complete s).IsCalm := by
  induction level generalizing s with
  | nil => exact h
  | cons node level ih => exact ih (h.complete node)

/-- The nodes at some depth of a tree have been met, and nothing below them. -/
structure AtLevel (s : Construction) (level : List Node) : Prop where
  plain : ∀ node ∈ level.flatMap Node.subnodes, node.IsPlain
  nodup : ((level.flatMap Node.subnodes).map Node.label).Nodup
  calm : s.IsCalm
  waiting : s.waiting = (level.filter Node.isCollection).reverse
  begun : ∀ l ∈ s.begun, l ∉ ((level.flatMap Node.parts).flatMap Node.subnodes).map Node.label

/-- What has been built so far, after visiting the parts of all nodes that have waited for it. -/
def next (s : Construction) : Construction :=
  s.waiting.reverse.foldl complete { s with waiting := [] }

namespace AtLevel

variable {s : Construction} {level : List Node}

theorem mem_subnodes_of_mem {node : Node} (h : node ∈ level) : node ∈ level.flatMap Node.subnodes :=
  List.mem_flatMap.2 ⟨node, h, by rw [Node.subnodes_eq]; exact List.mem_cons_self⟩

/-- The labels of a level and those below it are all different. -/
theorem nodup_append (h : s.AtLevel level) :
    (level.map Node.label ++
      ((level.flatMap Node.parts).flatMap Node.subnodes).map Node.label).Nodup := by
  rw [← List.map_append]
  exact ((Node.flatMap_subnodes_perm level).map _).nodup_iff.1 h.nodup

theorem plain_below (h : s.AtLevel level) :
    ∀ node ∈ (level.flatMap Node.parts).flatMap Node.subnodes, node.IsPlain :=
  fun node hnode => h.plain node
    ((Node.flatMap_subnodes_perm level).mem_iff.2 (List.mem_append_right _ hnode))

theorem contents_next (h : s.AtLevel level) :
    s.next.contents = ((level.filter Node.isCollection).map
      fun node => (node.label, node.content)).reverse ++ s.contents := by
  rw [next, contents_foldl_complete, h.waiting, List.reverse_reverse]

theorem atLevel_next (h : s.AtLevel level) : s.next.AtLevel (level.flatMap Node.parts) where
  plain := h.plain_below
  nodup := (List.nodup_append.1 h.nodup_append).2.1
  calm := (h.calm.setWaiting []).foldl_complete _
  waiting := by
    rw [next, waiting_foldl_complete, h.waiting, List.reverse_reverse, Node.flatMap_parts_filter,
      List.append_nil]
  begun l hl hbelow := by
    -- What is two levels below is also below, and none of it is one level below.
    have hperm := (Node.flatMap_subnodes_perm (level.flatMap Node.parts)).map Node.label
    rw [List.map_append] at hperm
    have hdeep : l ∈ ((level.flatMap Node.parts).flatMap Node.subnodes).map Node.label :=
      hperm.mem_iff.2 (List.mem_append_right _ hbelow)
    obtain ⟨-, hnodup, hapart⟩ := List.nodup_append.1 h.nodup_append
    obtain hold | hnew := mem_begun_foldl_complete _ _ hl
    · exact h.begun l hold hdeep
    · rw [h.waiting, List.reverse_reverse, Node.flatMap_parts_filter, List.map_append,
        List.mem_append] at hnew
      obtain hlevel | hparts := hnew
      · exact hapart l (List.map_subset _ (List.filter_subset_self _) hlevel) l hdeep rfl
      · exact (List.nodup_append.1 (hperm.nodup_iff.1 hnodup)).2.2 l hparts l hbelow rfl

end AtLevel

end Construction

namespace Construct

variable {anchored : List (String × Node)} {s : Construction}

/-- Visits the parts of a collection that has waited for it. -/
private def completion (size : Nat) : Node → Construct Unit
  | .scalar .. => fail
  | .sequence label tag items => do
    finish label (← content (visit size false) size (.sequence label tag items))
  | .mapping label tag entries => do
    finish label (← content (visit size false) size (.mapping label tag entries))
  | .alias _ => fail

private theorem does_completion {size : Nat} {node : Node} (hcollection : node.isCollection = true)
    (hplain : node.IsPlain) (hparts : ∀ part ∈ node.parts, part.IsPlain) (hcalm : s.IsCalm)
    (hnew : s.IsNew node.parts) (hsize : node.parts.length < size) :
    Does anchored (completion size node) s () (s.complete node) := by
  obtain ⟨fuel, rfl⟩ : ∃ fuel, size = fuel + 1 := Nat.exists_eq_succ_of_ne_zero (by omega)
  have hcontent : Does anchored (content (visit (fuel + 1) false) (fuel + 1) node) s node.content
    (s.meet node.parts) := does_content hcollection hplain hparts hcalm hnew hsize
  cases node with
  | sequence label tag items => exact hcontent.bind rfl
  | mapping label tag entries => exact hcontent.bind rfl
  | _ => cases hcollection

private theorem does_forM_completion {size : Nat} {level : List Node}
    (hcollection : ∀ node ∈ level, node.isCollection = true)
    (hplain : ∀ node ∈ level, node.IsPlain)
    (hparts : ∀ part ∈ level.flatMap Node.parts, part.IsPlain) (hcalm : s.IsCalm)
    (hnew : s.IsNew (level.flatMap Node.parts))
    (hapart : ∀ node ∈ level, node.label ∉ (level.flatMap Node.parts).map Node.label)
    (hsize : (level.flatMap Node.parts).length < size) :
    Does anchored (level.forM (completion size)) s () (level.foldl Construction.complete s) := by
  induction level generalizing s with
  | nil => exact .pure
  | cons node level ih =>
    rw [List.flatMap_cons] at *
    rw [List.forall_mem_cons] at hcollection hplain
    rw [List.forall_mem_append] at hparts
    rw [List.map_append, List.forall_mem_cons] at hapart
    rw [List.length_append] at hsize
    have hlabel : node.label ∉ (level.flatMap Node.parts).map Node.label :=
      fun h => hapart.1 (List.mem_append_right _ h)
    rw [List.foldl_cons]
    refine (does_completion hcollection.1 hplain.1 hparts.1 hcalm hnew.split.1 (by omega)).bind ?_
    exact ih hcollection.2 hplain.2 hparts.2 (hcalm.complete node) (hnew.complete hlabel)
      (fun other h => fun hmem => hapart.2 other h (List.mem_append_right _ hmem)) (by omega)

private theorem does_next {size : Nat} {level : List Node} (h : s.AtLevel level)
    (hsize : (level.flatMap Node.subnodes).length < size) :
    Does anchored (s.waiting.reverse.forM (completion size)) { s with waiting := [] } ()
      s.next := by
  have hperm := Node.flatMap_subnodes_perm level
  have hbelow := Node.flatMap_subnodes_perm (level.flatMap Node.parts)
  obtain ⟨-, hnodup, hapart⟩ := List.nodup_append.1 h.nodup_append
  have hmem : ∀ part ∈ level.flatMap Node.parts,
      part.label ∈ ((level.flatMap Node.parts).flatMap Node.subnodes).map Node.label :=
    fun part hpart => List.mem_map_of_mem (Construction.AtLevel.mem_subnodes_of_mem hpart)
  have hwaiting : s.waiting.reverse = level.filter Node.isCollection := by
    rw [h.waiting, List.reverse_reverse]
  rw [Construction.next, hwaiting]
  refine does_forM_completion (fun node hnode => List.of_mem_filter hnode)
    (fun node hnode => h.plain node
      (Construction.AtLevel.mem_subnodes_of_mem (List.mem_of_mem_filter hnode))) ?_
    (h.calm.setWaiting []) ?_ ?_ ?_
  · rw [Node.flatMap_parts_filter]
    exact fun part hpart => h.plain_below part (Construction.AtLevel.mem_subnodes_of_mem hpart)
  · rw [Node.flatMap_parts_filter]
    rw [(hbelow.map _).nodup_iff, List.map_append] at hnodup
    exact ⟨(List.nodup_append.1 hnodup).1, fun part hpart hin => h.begun _ hin (hmem part hpart)⟩
  · rw [Node.flatMap_parts_filter]
    intro node hnode hin
    obtain ⟨part, hpart, heq⟩ := List.mem_map.1 hin
    exact hapart _ (List.mem_map_of_mem (List.mem_of_mem_filter hnode)) _ (hmem part hpart) heq.symm
  · rw [Node.flatMap_parts_filter]
    rw [hperm.length_eq, List.length_append, hbelow.length_eq, List.length_append] at hsize
    omega

/-- Building level by level gives every collection its content. -/
theorem does_drain {size fuel : Nat} {level : List Node} (h : s.AtLevel level)
    (hsize : (level.flatMap Node.subnodes).length < size)
    (hfuel : (level.flatMap Node.subnodes).length ≤ fuel) :
    ∃ s', Does anchored (drain size fuel) s () s' ∧
      s'.contents.Perm ((((level.flatMap Node.subnodes).filter Node.isCollection).map
        fun node => (node.label, node.content)) ++ s.contents) := by
  induction fuel generalizing s level with
  | zero =>
    rw [List.eq_nil_of_length_eq_zero (Nat.le_zero.1 hfuel)]
    exact ⟨s, .pure, .refl _⟩
  | succ fuel ih =>
    have hperm := Node.flatMap_subnodes_perm level
    have hget : Does anchored get s s s := rfl
    cases hlevel : level.filter Node.isCollection with
    | nil =>
      have hbelow : level.flatMap Node.parts = [] := by
        rw [← Node.flatMap_parts_filter, hlevel, List.flatMap_nil]
      rw [hbelow, List.flatMap_nil, List.append_nil] at hperm
      refine ⟨s, hget.bind ?_, ?_⟩
      · rw [h.waiting, hlevel]
        exact .pure
      · have := (hperm.filter Node.isCollection).length_eq
        rw [hlevel, List.length_nil, List.length_eq_zero_iff] at this
        rw [this]
        exact .refl _
    | cons first others =>
      have hlength := hperm.length_eq
      rw [List.length_append] at hlength
      have hpos : 0 < level.length := List.length_pos_of_ne_nil (by rintro rfl; cases hlevel)
      have hwaiting : (!s.waiting.isEmpty) = true := by simp [h.waiting, hlevel]
      have hclear : Does anchored (modify fun s => { s with waiting := [] }) s ()
        { s with waiting := [] } := rfl
      obtain ⟨s', hdoes, hcontents⟩ := ih h.atLevel_next (by omega) (by omega)
      refine ⟨s', hget.bind ?_, ?_⟩
      · rw [if_pos hwaiting]
        exact hclear.bind ((does_next h hsize).bind hdoes)
      · rw [h.contents_next, ← List.append_assoc] at hcontents
        refine hcontents.trans (List.Perm.append_right _ ?_)
        refine List.perm_append_comm.trans ?_
        refine ((List.reverse_perm _).append_right _).trans ?_
        rw [← List.map_append, ← List.filter_append]
        exact ((hperm.filter _).map _).symm

end Construct

/-! ### Values -/

private theorem flatMap_links {parts : List Built} (h : ∀ part ∈ parts, part.links = []) :
    parts.flatMap Built.links = [] :=
  List.flatMap_eq_nil_iff.2 h

theorem buildContent_content {build : Part → Built} {node : Node}
    (hcollection : node.isCollection = true)
    (h : ∀ part ∈ node.parts, build part.part = ⟨part.value, []⟩) :
    buildContent build node.content = ⟨node.value, []⟩ := by
  cases node with
  | sequence label tag items =>
    have hitems : (items.map Node.part).map build = items.map fun item => ⟨item.value, []⟩ := by
      rw [List.map_map]
      exact List.map_congr_left h
    rw [Node.value_sequence]
    simp only [Node.content, Node.parts, buildContent, hitems, List.map_map]
    exact congrArg (Built.mk _) (flatMap_links (by simp))
  | mapping label tag entries =>
    have hentries : (entries.map fun entry => (entry.1.value, entry.2.part)).map
        (fun entry => (entry.1, build entry.2)) =
        entries.map fun entry => (entry.1.value, ⟨entry.2.value, []⟩) := by
      rw [List.map_map]
      refine List.map_congr_left fun entry hentry => ?_
      have hpart := h entry.2 (List.mem_flatMap.2 ⟨entry, hentry, by simp⟩)
      rw [Function.comp_apply, hpart]
    rw [Node.value_mapping]
    simp only [Node.content, buildContent, hentries, List.map_map]
    exact congrArg (Built.mk _) (flatMap_links (by grind))
  | _ => cases hcollection

theorem buildPart_part {contents : List (Nat × Content)} {fuel : Nat} {enclosing : List Nat}
    {node : Node}
    (hlookup : ∀ n ∈ node.subnodes, n.isCollection = true →
      contents.lookup n.label = some n.content)
    (hnodup : (node.subnodes.map Node.label).Nodup)
    (henclosing : ∀ l ∈ enclosing, l ∉ node.subnodes.map Node.label)
    (hfuel : (node.subnodes.filter Node.isCollection).length ≤ fuel) :
    buildPart contents fuel enclosing node.part = ⟨node.value, []⟩ := by
  induction node using Node.parts_induction generalizing fuel enclosing with
  | step node ih =>
    rw [Node.subnodes_eq] at hlookup hnodup henclosing hfuel
    cases hcollection : node.isCollection with
    | false => simp [Node.part, hcollection, buildPart]
    | true =>
      rw [List.filter_cons_of_pos hcollection, List.length_cons] at hfuel
      obtain ⟨fuel, rfl⟩ : ∃ n, fuel = n + 1 := Nat.exists_eq_succ_of_ne_zero (by omega)
      rw [List.map_cons] at hnodup henclosing
      obtain ⟨hlabel, hnodup⟩ := List.nodup_cons.1 hnodup
      have hnotMem : ¬enclosing.contains node.label = true := by
        rw [List.contains_iff_mem]
        exact fun hmem => henclosing _ hmem List.mem_cons_self
      have hcontent : buildContent (buildPart contents fuel (node.label :: enclosing))
          node.content = ⟨node.value, []⟩ := by
        refine buildContent_content hcollection fun part hpart => ?_
        have hsublist : part.subnodes.Sublist (node.parts.flatMap Node.subnodes) :=
          List.sublist_flatten_of_mem (List.mem_map_of_mem hpart)
        refine ih part hpart (fun n hn => hlookup n (List.mem_cons_of_mem _ (hsublist.subset hn)))
          (hnodup.sublist (hsublist.map _)) ?_ ?_
        · rw [List.forall_mem_cons]
          exact ⟨fun hmem => hlabel ((hsublist.map _).subset hmem), fun l hl hmem =>
            henclosing l hl (List.mem_cons_of_mem _ ((hsublist.map _).subset hmem))⟩
        · have := (hsublist.filter Node.isCollection).length_le
          omega
      rw [Node.part, if_pos hcollection, buildPart, if_neg hnotMem,
        hlookup node List.mem_cons_self hcollection]
      simp [hcontent, tie]

private theorem lookup_of_mem {contents : List (Nat × Content)} {label : Nat} {content : Content}
    (hnodup : (contents.map Prod.fst).Nodup) (h : (label, content) ∈ contents) :
    contents.lookup label = some content := by
  induction contents with
  | nil => cases h
  | cons entry contents ih =>
    rw [List.map_cons, List.nodup_cons] at hnodup
    obtain rfl | h := List.mem_cons.1 h
    · exact List.lookup_cons_self
    · have hne : (label == entry.1) = false :=
        beq_false_of_ne fun heq => hnodup.1 (heq ▸ List.mem_map_of_mem h)
      rw [List.lookup_cons, hne]
      exact ih hnodup.2 h

/-- Meeting the root of a tree puts the construction at the first level. -/
theorem Construction.atLevel_meet {root : Node} (hplain : ∀ node ∈ root.subnodes, node.IsPlain)
    (hnodup : (root.subnodes.map Node.label).Nodup) :
    (Construction.meet {} [root]).AtLevel [root] where
  plain := by rwa [List.flatMap_singleton]
  nodup := by rwa [List.flatMap_singleton]
  calm := IsCalm.meet ⟨rfl, rfl⟩ _
  waiting := List.append_nil _
  begun l hl := by
    rw [Node.subnodes_eq, List.map_cons, List.nodup_cons] at hnodup
    obtain ⟨node, hnode, rfl⟩ : ∃ node ∈ [root].filter Node.isCollection, node.label = l := by
      simpa [Construction.meet] using hl
    obtain rfl := List.mem_singleton.1 (List.mem_of_mem_filter hnode)
    rw [List.flatMap_singleton]
    exact hnodup.1

/-- The construction of a tree gives every collection its content. -/
theorem NodeGraph.construct_eq {graph : NodeGraph}
    (hplain : ∀ node ∈ graph.root.subnodes, node.IsPlain)
    (hnodup : (graph.root.subnodes.map Node.label).Nodup)
    (hlabels : graph.root.subnodes.length ≤ graph.labels) :
    ∃ contents, graph.construct = .ok (graph.root.part, contents) ∧
      contents.Perm ((graph.root.subnodes.filter Node.isCollection).map
        fun node => (node.label, node.content)) := by
  have hroot : graph.root ∈ graph.root.subnodes := by
    rw [Node.subnodes_eq]
    exact List.mem_cons_self
  have hnew : Construction.IsNew {} [graph.root] :=
    ⟨by simp, fun _ _ => List.not_mem_nil⟩
  have hsize : graph.labels + 2 ≤ (graph.labels + 2) * (graph.labels + 2) :=
    Nat.le_mul_of_pos_left _ (by omega)
  obtain ⟨fuel, hfuel⟩ : ∃ fuel, (graph.labels + 2) * (graph.labels + 2) = fuel + 1 :=
    Nat.exists_eq_succ_of_ne_zero (by omega)
  have hvisit : Construct.Does graph.anchored (Construct.visit (fuel + 1) false graph.root) {}
    graph.root.part (Construction.meet {} [graph.root]) :=
    Construct.does_visit (hplain _ hroot) ⟨rfl, rfl⟩ hnew
  obtain ⟨s, hdrain, hcontents⟩ : ∃ s, Construct.Does graph.anchored
      (Construct.drain (fuel + 1) (graph.labels + 1)) (Construction.meet {} [graph.root]) () s ∧
      _ :=
    Construct.does_drain (Construction.atLevel_meet hplain hnodup)
      (by rw [List.flatMap_singleton]; omega) (by rw [List.flatMap_singleton]; omega)
  have hsteps : Construct.Does graph.anchored
      (do
        let root ← Construct.visit (fuel + 1) false graph.root
        Construct.drain (fuel + 1) (graph.labels + 1)
        return root) {} graph.root.part s :=
    hvisit.bind (hdrain.bind .pure)
  rw [List.flatMap_singleton] at hcontents
  refine ⟨s.contents, ?_, hcontents.trans (.of_eq (List.append_nil _))⟩
  rw [construct, hfuel]
  exact congrArg (· >>= _) hsteps

/-- The value of a graph that is a tree is given by recursion over the tree. -/
theorem NodeGraph.value_eq {graph : NodeGraph} (hplain : ∀ node ∈ graph.root.subnodes, node.IsPlain)
    (hnodup : (graph.root.subnodes.map Node.label).Nodup)
    (hlabels : graph.root.subnodes.length ≤ graph.labels) : graph.value = .ok graph.root.value := by
  obtain ⟨contents, hconstruct, hcontents⟩ := construct_eq hplain hnodup hlabels
  have hkeys : (contents.map Prod.fst).Nodup := by
    rw [(hcontents.map _).nodup_iff, List.map_map]
    exact hnodup.sublist (List.filter_sublist.map _)
  have hbuild : buildPart contents (contents.length + 1) [] graph.root.part =
      ⟨graph.root.value, []⟩ := by
    refine buildPart_part (fun node hnode hcollection => ?_) hnodup (by simp) ?_
    · exact lookup_of_mem hkeys (hcontents.mem_iff.2
        (List.mem_map.2 ⟨node, List.mem_filter.2 ⟨hnode, hcollection⟩, rfl⟩))
    · rw [hcontents.length_eq, List.length_map]
      omega
  rw [value, hconstruct]
  exact congrArg (fun built => Except.ok built.value) hbuild

end StackScript.Yaml
