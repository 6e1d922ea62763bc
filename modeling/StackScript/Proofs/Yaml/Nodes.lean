import StackScript.Yaml.Node

/-!
# Reading nodes

What single steps of reading nodes do, and what every step passes. A colon is only passed after the
mark of a key, so there are never more colons than keys among the tokens that have been passed.

## Main definitions

* `Yaml.Nodes.Does`: what a step of reading nodes does.
* `Yaml.Nodes.Passes`: what a step of reading nodes passes.

## Main results

* `Yaml.Nodes.exists_passed_of_document`: the tokens of a document that can be read.
-/

namespace StackScript.Yaml

/-! ### Steps -/

/-- The state with other tokens to come and another label. -/
def NodeState.after (s : NodeState) (rest : List Token) (label : Nat) : NodeState :=
  { s with tokens := rest, nextLabel := label }

namespace Nodes

variable {α β : Type} {s s' s'' : NodeState} {a : α} {b : β} {token other : Token}
  {rest : List Token}

/-- A step of reading leads from a state to a result and another state. -/
def Does (m : Nodes α) (s : NodeState) (a : α) (s' : NodeState) : Prop := m.run s = .ok (a, s')

theorem Does.pure : Does (pure a) s a s := rfl

theorem Does.bind {m : Nodes α} {f : α → Nodes β} (hm : Does m s a s') (hf : Does (f a) s' b s'') :
    Does (m >>= f) s b s'' := by
  unfold Does at *
  rw [StateT.run_bind, hm]
  exact hf

theorem does_peek (h : s.tokens = token :: rest) : Does peek s token s := by
  have hget : Does get s s s := rfl
  refine hget.bind ?_
  rw [h]
  exact .pure

theorem does_advance (h : s.tokens = token :: rest) :
    Does advance s () (s.after rest s.nextLabel) := by
  have hadvance : Does advance s () { s with tokens := s.tokens.tail } := rfl
  rwa [h] at hadvance

theorem does_accept (h : s.tokens = token :: rest) :
    Does (accept token) s true (s.after rest s.nextLabel) := by
  refine (does_peek h).bind ?_
  rw [if_pos rfl]
  exact (does_advance h).bind .pure

theorem does_accept_of_ne (h : s.tokens = token :: rest) (hne : token ≠ other) :
    Does (accept other) s false s := by
  refine (does_peek h).bind ?_
  rw [if_neg hne]
  exact .pure

theorem does_newLabel : Does newLabel s s.nextLabel (s.after s.tokens (s.nextLabel + 1)) := rfl

theorem does_nodeUnless {node : Nodes Node} {ends : List Token} {n : Node}
    (h : s.tokens = token :: rest) (hends : token ∉ ends) (hnode : Does node s n s') :
    Does (nodeUnless node ends) s n s' := by
  have hat : Does (atAny ends) s (ends.contains token) s := (does_peek h).bind .pure
  refine hat.bind ?_
  rw [if_neg (by simpa using hends)]
  exact hnode

/-- The tokens that the content of a node without properties starts with. -/
def startsContent : Token → Bool
  | .scalar .. => true
  | .flowSequenceStart => true
  | .flowMappingStart => true
  | _ => false

theorem does_node {size fuel : Nat} {place : Place} {n : Node} (h : s.tokens = token :: rest)
    (hstarts : startsContent token = true)
    (hcontent : Does (content (node size fuel) size place none none token) s n s') :
    Does (node size (fuel + 1) place) s n s' := by
  have hpeek := does_peek h
  have hanchor : Does anchor? s none s := by
    refine hpeek.bind ?_
    cases token <;> first | exact .pure | cases hstarts
  have htag : Does tag? s none s := by
    refine hpeek.bind ?_
    cases token <;> first | exact .pure | cases hstarts
  have hproperties : Does properties s (none, none) s := by
    unfold properties
    refine hanchor.bind ?_
    dsimp only
    exact htag.bind .pure
  refine hpeek.bind ?_
  cases token <;> first
    | exact hproperties.bind (hpeek.bind (Does.bind .pure (hcontent.bind .pure)))
    | cases hstarts

/-! ### What is passed -/

theorem does_bind_iff {m : Nodes α} {f : α → Nodes β} :
    Does (m >>= f) s b s'' ↔ ∃ a s', Does m s a s' ∧ Does (f a) s' b s'' := by
  constructor
  · intro h
    unfold Does at h
    rw [StateT.run_bind] at h
    cases hm : m.run s with
    | error fault => rw [hm] at h; cases h
    | ok result => exact ⟨result.1, result.2, hm, by rw [hm] at h; exact h⟩
  · rintro ⟨a, s', hm, hf⟩
    exact hm.bind hf

theorem Does.unique {m : Nodes α} {a' : α} {t : NodeState} (h : Does m s a s')
    (h' : Does m s a' t) : a = a' ∧ s' = t := by
  unfold Does at h h'
  rw [h] at h'
  cases h'
  exact ⟨rfl, rfl⟩

theorem of_does_peek (h : Does peek s token s') : s' = s ∧ s.tokens.head? = some token := by
  cases htokens : s.tokens with
  | nil =>
    obtain ⟨a, s₁, hget, hmatch⟩ := does_bind_iff.1 h
    cases hget
    rw [htokens] at hmatch
    cases hfault : s.fault <;> rw [hfault] at hmatch <;> cases hmatch
  | cons t rest =>
    obtain ⟨rfl, rfl⟩ := (does_peek htokens).unique h
    exact ⟨rfl, rfl⟩

theorem of_does_accept {accepted : Bool} (h : Does (accept token) s accepted s') :
    (accepted = true ∧ ∃ rest, s.tokens = token :: rest ∧ s' = s.after rest s.nextLabel) ∨
      (accepted = false ∧ s' = s) := by
  obtain ⟨t, s₁, hpeek, -⟩ := does_bind_iff.1 h
  obtain ⟨rest, hs⟩ := List.head?_eq_some_iff.1 (of_does_peek hpeek).2
  by_cases ht : t = token
  · obtain ⟨rfl, rfl⟩ := (does_accept (ht ▸ hs)).unique h
    exact .inl ⟨rfl, rest, ht ▸ hs, rfl⟩
  · obtain ⟨rfl, rfl⟩ := (does_accept_of_ne hs ht).unique h
    exact .inr ⟨rfl, rfl⟩

/-- A step that starts at the given token, if one is given, passes tokens with at most so many more
colons than keys among them. -/
def Passes (next : Option Token) (more : Nat) (m : Nodes α) : Prop :=
  ∀ ⦃s a s'⦄, (∀ t ∈ next, s.tokens.head? = some t) → Does m s a s' →
    ∃ passed, s.tokens = passed ++ s'.tokens ∧ passed.count .value ≤ passed.count .key + more

namespace Passes

variable {next : Option Token} {more more' : Nat} {m : Nodes α} {f : α → Nodes β}

theorem pure : Passes next more (pure a) := by
  rintro s _ s' - h
  cases h
  exact ⟨[], rfl, Nat.zero_le _⟩

theorem fail : Passes next more (Nodes.fail : Nodes α) := by
  rintro s _ s' - h
  cases h

theorem start (h : Passes none more m) : Passes next more m :=
  fun _ _ _ _ hdoes => h (by simp) hdoes

theorem mono (h : Passes next more m) (hle : more ≤ more') : Passes next more' m := by
  intro s a s' hnext hdoes
  obtain ⟨passed, hs, hcount⟩ := h hnext hdoes
  exact ⟨passed, hs, by omega⟩

private theorem bind_add (hm : Passes next more m) (hf : ∀ a, Passes none more' (f a)) :
    Passes next (more + more') (m >>= f) := by
  intro s b s'' hnext h
  obtain ⟨a, s', hdoes, hrest⟩ := does_bind_iff.1 h
  obtain ⟨passed, hs, hcount⟩ := hm hnext hdoes
  obtain ⟨passed', hs', hcount'⟩ := hf a (by simp) hrest
  refine ⟨passed ++ passed', by rw [hs, hs', List.append_assoc], ?_⟩
  rw [List.count_append, List.count_append]
  omega

theorem bind (hm : Passes next 0 m) (hf : ∀ a, Passes none more (f a)) :
    Passes next more (m >>= f) := by
  have hadd := hm.bind_add hf
  rwa [Nat.zero_add] at hadd

/-- All additional colons are passed by the first step. -/
theorem bind_balanced (hm : Passes next more m) (hf : ∀ a, Passes none 0 (f a)) :
    Passes next more (m >>= f) :=
  hm.bind_add hf

theorem of_keeps (hm : ∀ s a s', Does m s a s' → s'.tokens = s.tokens) : Passes next more m :=
  fun s a s' _ h => ⟨[], (hm s a s' h).symm, Nat.zero_le _⟩

/-- A step before that passes nothing. -/
theorem bind_of_keeps (hm : ∀ s a s', Does m s a s' → s'.tokens = s.tokens)
    (hf : ∀ a, Passes next more (f a)) : Passes next more (m >>= f) := by
  intro s b s'' hnext h
  obtain ⟨a, s', hdoes, hrest⟩ := does_bind_iff.1 h
  have hkeep := hm s a s' hdoes
  obtain ⟨passed, hs, hcount⟩ := hf a (hkeep ▸ hnext) hrest
  exact ⟨passed, hkeep ▸ hs, hcount⟩

theorem ite {c : Prop} [Decidable c] {m' : Nodes α} (h : Passes next more m)
    (h' : Passes next more m') : Passes next more (if c then m else m') := by
  by_cases hc : c
  · rwa [if_pos hc]
  · rwa [if_neg hc]

theorem peek_bind {f : Token → Nodes β} (hf : ∀ t, Passes (some t) more (f t)) :
    Passes none more (peek >>= f) := by
  intro s b s' _ h
  obtain ⟨t, s₁, hdoes, hrest⟩ := does_bind_iff.1 h
  obtain ⟨rfl, hhead⟩ := of_does_peek hdoes
  exact hf t (by simpa using hhead) hrest

theorem advance_bind {f : Unit → Nodes β} (hne : token ≠ .value) (hf : Passes none more (f ())) :
    Passes (some token) more (advance >>= f) := by
  intro s b s' hnext h
  obtain ⟨rest, hs⟩ := List.head?_eq_some_iff.1 (hnext token rfl)
  obtain ⟨_, s₁, hdoes, hrest⟩ := does_bind_iff.1 h
  obtain ⟨rfl, rfl⟩ := (does_advance hs).unique hdoes
  obtain ⟨passed, hpassed, hcount⟩ := hf (by simp) hrest
  refine ⟨token :: passed, by rw [hs]; exact congrArg (token :: ·) hpassed, ?_⟩
  rw [List.count_cons_of_ne hne, List.count_cons]
  omega

section Accept

variable {f : Bool → Nodes β}

private theorem accept_bind_count (htrue : Passes none more' (f true))
    (hle : more' + [token].count .value ≤ more + [token].count .key)
    (hfalse : Passes none more (f false)) : Passes none more (accept token >>= f) := by
  intro s b s' _ h
  obtain ⟨accepted, s₁, hdoes, hrest⟩ := does_bind_iff.1 h
  obtain ⟨rfl, rest, hs, rfl⟩ | ⟨rfl, rfl⟩ := of_does_accept hdoes
  · obtain ⟨passed, hpassed, hcount⟩ := htrue (by simp) hrest
    refine ⟨[token] ++ passed, by rw [hs]; exact congrArg (token :: ·) hpassed, ?_⟩
    rw [List.count_append, List.count_append]
    omega
  · exact hfalse (by simp) hrest

theorem accept_bind (hne : token ≠ .value) (htrue : Passes none more (f true))
    (hfalse : Passes none more (f false)) : Passes none more (accept token >>= f) :=
  accept_bind_count htrue (by simp [List.count_singleton, hne]) hfalse

/-- A key may be followed by a colon. -/
theorem acceptKey_bind (htrue : Passes none (more + 1) (f true))
    (hfalse : Passes none more (f false)) : Passes none more (accept .key >>= f) :=
  accept_bind_count htrue (by simp) hfalse

theorem acceptValue_bind (htrue : Passes none more (f true))
    (hfalse : Passes none (more + 1) (f false)) : Passes none (more + 1) (accept .value >>= f) :=
  accept_bind_count htrue (by simp) hfalse

end Accept

end Passes

/-! ### What the rules pass -/

section Rules

variable {nodeAt : Place → Nodes Node} {more : Nat} {next : Option Token}

private theorem passes_newLabel : Passes next more newLabel := by
  refine .of_keeps fun s a s' h => ?_
  cases h
  rfl

private theorem passes_atAny (ends : List Token) : Passes none more (atAny ends) :=
  .peek_bind fun _ => .pure

private theorem passes_fullTag (handle : Option String) (suffix : String) :
    Passes none more (fullTag handle suffix) := by
  refine .of_keeps fun s a s' h => ?_
  cases handle with
  | none => cases h; rfl
  | some handle =>
    obtain ⟨t, s₁, hget, hmatch⟩ := does_bind_iff.1 h
    cases hget
    cases hlookup : (s.handles ++ defaultHandles).lookup handle <;> rw [hlookup] at hmatch <;>
      cases hmatch
    rfl

private theorem passes_anchor? : Passes none more anchor? := by
  refine .peek_bind fun t => ?_
  cases t <;> first | exact .pure | exact .advance_bind (by simp) .pure

private theorem passes_tag? : Passes none more tag? := by
  refine .peek_bind fun t => ?_
  cases t <;> first | exact .pure | exact .advance_bind (by simp) .pure

private theorem passes_properties : Passes none 0 properties := by
  have htag (anchor : Option String) (tag : Option String × String) :
      Passes none 0 (do return (anchor, some (← fullTag tag.1 tag.2))) :=
    (passes_fullTag _ _).bind fun _ => .pure
  unfold properties
  refine passes_anchor?.bind fun anchor => ?_
  cases anchor with
  | some name =>
    refine passes_tag?.bind fun tag => ?_
    cases tag with
    | some tag => exact htag (some name) tag
    | none => exact .pure
  | none =>
    refine passes_tag?.bind fun tag => ?_
    cases tag with
    | some tag => exact passes_anchor?.bind fun anchor => htag anchor tag
    | none => exact .pure

private theorem keeps_declare (anchor : Option String) (s : NodeState) (a : Unit) (s' : NodeState)
    (h : Does (declare anchor) s a s') : s'.tokens = s.tokens := by
  cases anchor with
  | none => cases h; rfl
  | some name =>
    obtain ⟨t, s₁, hget, hite⟩ := does_bind_iff.1 h
    cases hget
    by_cases hseen : s.anchors.contains name
    · rw [if_pos hseen] at hite; cases hite
    · rw [if_neg hseen] at hite; cases hite; rfl

private theorem passes_complete (anchor : Option String) (n : Node) :
    Passes none more (complete anchor n) := by
  refine .of_keeps fun s a s' h => ?_
  cases anchor <;> cases h <;> rfl

private theorem passes_scalarNode (tag : Option String) (plain : Bool) (text : List Char) :
    Passes next more (scalarNode tag plain text) :=
  passes_newLabel.bind fun _ => .pure

private theorem passes_emptyNode : Passes none more emptyNode := passes_scalarNode none true []

private theorem passes_nodeUnless {n : Nodes Node} (h : Passes none 0 n) (ends : List Token) :
    Passes none 0 (nodeUnless n ends) :=
  (passes_atAny ends).bind fun _ => .ite passes_emptyNode h

section Parts

variable (h : ∀ place, Passes none 0 (nodeAt place))
include h

private theorem passes_blockItems (done : List Node) (fuel : Nat) :
    Passes none 0 (blockItems nodeAt done fuel) := by
  induction fuel generalizing done with
  | zero => exact .fail
  | succ fuel ih =>
    refine .accept_bind (by simp) ?_ (.accept_bind (by simp) .pure .fail)
    exact (passes_nodeUnless (h _) _).bind fun item => ih (item :: done)

private theorem passes_indentlessItems (done : List Node) (fuel : Nat) :
    Passes none 0 (indentlessItems nodeAt done fuel) := by
  induction fuel generalizing done with
  | zero => exact .fail
  | succ fuel ih =>
    refine .accept_bind (by simp) ?_ .pure
    exact (passes_nodeUnless (h _) _).bind fun item => ih (item :: done)

private theorem passes_blockEntries (done : List (Node × Node)) (fuel : Nat) :
    Passes none 0 (blockEntries nodeAt done fuel) := by
  induction fuel generalizing done with
  | zero => exact .fail
  | succ fuel ih =>
    refine .acceptKey_bind ?_ (.accept_bind (by simp) .pure .fail)
    refine (passes_nodeUnless (h _) _).bind fun key => ?_
    refine .acceptValue_bind ?_ ?_
    · exact (passes_nodeUnless (h _) _).bind fun value => ih _
    · exact passes_emptyNode.bind fun value => (ih _).mono (Nat.zero_le 1)

private theorem passes_flowValue (close : Token) : Passes none 1 (flowValue nodeAt close) :=
  .acceptValue_bind (passes_nodeUnless (h _) _) passes_emptyNode

private theorem passes_flowItem : Passes none 0 (flowItem nodeAt) := by
  refine .acceptKey_bind ?_ (h _)
  refine passes_newLabel.bind fun label => (passes_nodeUnless (h _) _).bind fun key => ?_
  exact (passes_flowValue h _).bind_balanced fun _ => .pure

private theorem passes_flowPair : Passes none 0 (flowPair nodeAt) := by
  refine .acceptKey_bind ?_ ((h _).bind fun _ => passes_emptyNode.bind fun _ => .pure)
  refine (passes_nodeUnless (h _) _).bind fun key => ?_
  exact (passes_flowValue h _).bind_balanced fun _ => .pure

end Parts

private theorem passes_flowList {item : Nodes α} (h : Passes none 0 item) {close : Token}
    (hclose : close ≠ .value) (done : List α) (fuel : Nat) :
    Passes none 0 (flowList item close done fuel) := by
  induction fuel generalizing done with
  | zero => exact .fail
  | succ fuel ih =>
    have hnext : Passes none 0 (do
        if ← accept close then return done.reverse
        else flowList item close ((← item) :: done) fuel) :=
      .accept_bind hclose .pure (h.bind fun a => ih (a :: done))
    refine .accept_bind hclose .pure ?_
    dsimp only
    refine .ite .pure (.ite ?_ hnext)
    exact .accept_bind (by simp) hnext (Passes.fail.bind fun _ => hnext)

private theorem passes_content (h : ∀ place, Passes none 0 (nodeAt place)) (size : Nat)
    (place : Place) (anchor tag : Option String) (first : Token) :
    Passes (some first) 0 (content nodeAt size place anchor tag first) := by
  have hsequence {items : Nodes (List Node)} (hitems : Passes none 0 items) (next : Option Token) :
      Passes next 0 (do
        let label ← newLabel
        return Node.sequence label (collectionTag tag .seq) (← items)) :=
    passes_newLabel.bind fun _ => hitems.bind fun _ => .pure
  have hmapping {entries : Nodes (List (Node × Node))} (hentries : Passes none 0 entries) :
      Passes none 0 (do
        let label ← newLabel
        return Node.mapping label (collectionTag tag .map) (← entries)) :=
    passes_newLabel.bind fun _ => hentries.bind fun _ => .pure
  have hempty : Passes (some first) 0
      (if anchor.isSome || tag.isSome then scalarNode tag true [] else fail) :=
    .ite (passes_scalarNode _ _ _) .fail
  unfold content
  dsimp only
  split
  · exact .ite (hsequence (passes_indentlessItems h [] size) _) hempty
  · exact .advance_bind (by simp) (passes_scalarNode _ _ _)
  · exact .advance_bind (by simp) (hsequence (passes_flowList (passes_flowItem h) (by simp) _ _) _)
  · exact .advance_bind (by simp) (hmapping (passes_flowList (passes_flowPair h) (by simp) _ _))
  · by_cases hvalue : first = .value
    · subst hvalue
      simpa using hempty
    · exact .ite (.advance_bind hvalue (hsequence (passes_blockItems h [] size) _))
        (.ite (.advance_bind hvalue (hmapping (passes_blockEntries h [] size))) hempty)

private theorem passes_node (size fuel : Nat) (place : Place) :
    Passes none 0 (node size fuel place) := by
  induction fuel generalizing place with
  | zero => exact .fail
  | succ fuel ih =>
    have hread (found : Option String × Option String) : Passes none 0 (do
        let first ← peek
        declare found.1
        complete found.1
          (← content (Nodes.node size fuel) size place found.1 found.2 first)) := by
      refine .peek_bind fun first => .bind_of_keeps (keeps_declare found.1) fun _ => ?_
      exact (passes_content ih size place found.1 found.2 first).bind fun n =>
        passes_complete found.1 n
    refine .peek_bind fun t => ?_
    cases t with
    | «alias» name =>
      refine .advance_bind (by simp) (.bind_of_keeps (fun s a s' h => ?_) fun _ => .ite .pure .fail)
      cases h
      rfl
    | _ => exact (passes_properties.bind hread).start

private theorem passes_directives (versioned : Bool) (fuel : Nat) :
    Passes none 0 (directives versioned fuel) := by
  induction fuel generalizing versioned with
  | zero => exact .pure
  | succ fuel ih =>
    refine .peek_bind fun t => ?_
    cases t with
    | directive d =>
      cases d with
      | version major => exact .advance_bind (by simp) (.ite .fail (ih true))
      | tagHandle handle start =>
        refine .advance_bind (by simp) fun s b s' _ h => ?_
        obtain ⟨_, _, hget, hite⟩ := does_bind_iff.1 h
        cases hget
        split at hite
        · cases hite
        · obtain ⟨_, _, hset, hrest⟩ := does_bind_iff.1 hite
          cases hset
          obtain ⟨passed, hpassed, hcount⟩ := ih versioned (by simp) hrest
          exact ⟨passed, hpassed, hcount⟩
      | unknown => exact .advance_bind (by simp) (ih versioned)
    | _ => exact .pure

private theorem passes_markedDocument (size : Nat) : Passes none 0 (markedDocument size) := by
  have hnode (isEmpty : Bool) :
      Passes none 0 (if isEmpty then emptyNode else node size size .block) :=
    .ite passes_emptyNode (passes_node size size .block)
  refine (passes_directives false size).bind fun _ => ?_
  refine .accept_bind (by simp) ?_ (Passes.fail.bind fun _ => ?_)
  all_goals
    refine .peek_bind fun t => ?_
    cases t <;> exact Passes.bind .pure fun isEmpty => hnode isEmpty

private theorem exists_of_finish {size : Nat} (h : Does (finish size) s () s') :
    ∃ passed, s.tokens = passed ++ s'.tokens ∧ passed.count .value ≤ passed.count .key ∧
      .streamEnd ∈ passed := by
  obtain ⟨_, _, hmodify, hrest⟩ := does_bind_iff.1 h
  cases hmodify
  obtain ⟨accepted, s₁, haccept, hrest⟩ := does_bind_iff.1 hrest
  obtain ⟨rfl, rest, hs, rfl⟩ | ⟨rfl, rfl⟩ := of_does_accept haccept
  · cases hrest
    have hsplit := List.takeWhile_append_dropWhile (p := (· = Token.documentEnd)) (l := s.tokens)
    have hcount : (s.tokens.takeWhile (· = .documentEnd)).count .value = 0 :=
      List.count_eq_zero.2 fun h => by simpa using List.all_eq_true.1 List.all_takeWhile _ h
    refine ⟨s.tokens.takeWhile (· = .documentEnd) ++ [.streamEnd], ?_, ?_, by simp⟩
    · rw [List.append_assoc]
      exact hsplit.symm.trans (congrArg _ hs)
    · rw [List.count_append, hcount]
      exact Nat.zero_le _
  · obtain ⟨_, _, -, hfail⟩ := does_bind_iff.1 hrest
    obtain ⟨_, _, -, hfail⟩ := does_bind_iff.1 hfail
    cases hfail

/-- A document can only be read if the end of its tokens is reached, with no more colons than keys
before it. -/
theorem exists_passed_of_document {root : Node} (h : Does document s (some root) s') :
    ∃ passed, s.tokens = passed ++ s'.tokens ∧ passed.count .value ≤ passed.count .key ∧
      .streamEnd ∈ passed := by
  obtain ⟨_, _, hget, hrest⟩ := does_bind_iff.1 h
  cases hget
  obtain ⟨t, _, hpeek, hrest⟩ := does_bind_iff.1 hrest
  rw [(of_does_peek hpeek).1] at hrest
  have hread {m : Nodes Node} (hm : Passes none 0 m)
      (hdoes : Does (do let n ← m; finish (s.tokens.length + 1); return some n) s (some root) s') :
      ∃ passed, s.tokens = passed ++ s'.tokens ∧ passed.count .value ≤ passed.count .key ∧
        .streamEnd ∈ passed := by
    obtain ⟨n, s₁, hnode, hdoes⟩ := does_bind_iff.1 hdoes
    obtain ⟨_, s₂, hfinish, hreturn⟩ := does_bind_iff.1 hdoes
    cases hreturn
    obtain ⟨passed, hs, hcount⟩ := hm (by simp) hnode
    obtain ⟨passed', hs', hcount', hend⟩ := exists_of_finish hfinish
    refine ⟨passed ++ passed', by rw [hs, hs', List.append_assoc], ?_,
      List.mem_append_right _ hend⟩
    rw [List.count_append, List.count_append]
    omega
  cases t with
  | streamEnd => cases hrest
  | directive d => exact hread (passes_markedDocument _) hrest
  | documentStart => exact hread (passes_markedDocument _) hrest
  | _ => exact hread (passes_node _ _ _) hrest

end Rules

end Nodes

end StackScript.Yaml
