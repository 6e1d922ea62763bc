import StackScript.Proofs.Grammar.Words

/-!
# The words of declarations

A declaration stands on the right of an assignment and reaches up to the end of its statement: the
end of input, or a name on another line. Lines matter to the modifiers of a resource only, which go
on as long as names of modifiers follow on the same line.

## Main definitions

* `Reader.EndsStatement`: the tokens that may follow a statement on a line.
* `Reader.ReadsModifier`: the words of a modifier.
* `Reader.WordedFields`: the words of properties in braces.

## Main results

* `Reader.reads_expressionAt_resource`, `Reader.reads_expressionAt_body`,
  `Reader.reads_expressionAt_condition`: the words of declarations.
-/

namespace StackScript.Reader

variable {line limit levels : Nat} {e : Expr} {ws : List Word} {next : Token → Prop} {α β : Type}

/-- A token after a statement on a line: the end of input, or the start of another statement. -/
def EndsStatement (line : Nat) (t : Token) : Prop :=
  t.kind = .eof ∨ (t.kind = .identifier ∨ t.kind = .string) ∧ t.line ≠ line

theorem EndsStatement.stops {place : Nat} {t : Token} (h : EndsStatement line t) : Stops place t := by
  refine stops_of_mem ?_
  rcases h with h | ⟨h | h, -⟩ <;> (rw [h]; decide)

theorem EndsStatement.kind_ne {kind : TokenKind} {t : Token} (h : EndsStatement line t)
    (hkind : kind ∉ [.eof, .identifier, .string]) : t.kind ≠ kind := by
  rintro rfl
  refine hkind ?_
  rcases h with h | ⟨h | h, -⟩ <;> (rw [h]; decide)

/-- A single operand that reaches up to the end of its statement. -/
private theorem reads_joined_single {sign : TokenKind} {function : String} {operator : Operator}
    {operand : Reader Expr} (h : Reads line operand (EndsStatement line) ws e)
    (hsign : sign ∉ [.eof, .identifier, .string]) :
    Reads line (joined sign function operator operand) (EndsStatement line) ws e := by
  refine h.bind_nil (.get fun s _ => ?_)
  refine Reads.bind_nil (a := []) ?_ (.pure e)
  cases s.remaining with
  | zero => exact .pure []
  | succ bound => exact .accept_false (fun t ht => EndsStatement.kind_ne ht hsign) (.pure [])

/-- A primary expression that reaches up to the end of its statement. -/
private theorem reads_expressionAt_of_primary {x : String}
    (h : ∀ t : Token, t.value = x → Reads line (word (expressionAt limit levels) t)
      (EndsStatement line) (.ident x :: ws) e) :
    Reads line (expressionAt limit (levels + 1)) (EndsStatement line) (.ident x :: ws) e := by
  have hprimary : Reads line (primary (expressionAt limit levels)) (EndsStatement line)
      (.ident x :: ws) e := by
    refine .current fun t ht => ?_
    rw [show t.kind = .identifier from ht.kind]
    exact h t (congrArg Word.value ht)
  have haccesses (bound : Nat) : Reads line (accesses e bound) (EndsStatement line) [] e := by
    cases bound with
    | zero => exact .pure e
    | succ bound =>
      exact .at_false (fun t ht => EndsStatement.kind_ne ht (by decide))
        (.at_false (fun t ht => EndsStatement.kind_ne ht (by decide)) (.pure e))
  have hunary : Reads line (unaryAt limit levels) (EndsStatement line) (.ident x :: ws) e := by
    rw [unaryAt_eq]
    refine .accept_false (fun t ht => by simp [ht.kind]) (hprimary.bind_nil ?_)
    exact .get fun s _ => haccesses s.remaining
  have hcomparison : Reads line (comparison (unaryAt limit levels)) (EndsStatement line)
      (.ident x :: ws) e := by
    refine hunary.bind_nil (.acceptAny_none (fun t ht hmem => ?_) (.pure e))
    have hkinds : ∀ kind ∈ [TokenKind.doubleEquals, .notEquals],
        kind ∉ [TokenKind.eof, .identifier, .string] := by decide
    exact EndsStatement.kind_ne ht (hkinds _ hmem) rfl
  exact Reads.within (reads_joined_single (reads_joined_single hcomparison (by decide)) (by decide))

/-! ### Types -/

private theorem reads_typeSegments (segments more : List String) {bound : Nat}
    (hbound : more.length ≤ bound) :
    Reads line (typeSegments segments bound) (fun t => t.kind ≠ .doubleColon)
      ((more.map fun s => [Word.ident s]).flatMap (.sign .doubleColon :: ·))
      (segments ++ more) := by
  induction more generalizing segments bound with
  | nil =>
    rw [List.append_nil]
    cases bound with
    | zero => exact .pure _
    | succ bound => exact .accept_false (fun t ht => ht) (.pure _)
  | cons s more ih =>
    obtain ⟨bound, rfl⟩ := Nat.exists_eq_add_of_le' (Nat.one_le_of_lt hbound)
    refine .accept_true rfl (by decide) (.current fun t ht => ?_)
    rw [if_pos (show t.kind = .identifier from ht.kind)]
    refine .advance (by simp) fun t ht _ => ?_
    have h := ih (segments ++ [s]) (Nat.le_of_succ_le_succ hbound)
    rw [List.append_assoc, List.singleton_append] at h
    rw [show t.value = s from congrArg Word.value ht]
    exact h

/-- A type that is written as names with double colons between them. -/
theorem reads_resourceType_segments {segments : List String} (hne : segments ≠ []) :
    Reads line resourceType (fun t => t.kind ≠ .doubleColon)
      (Word.joined (.sign .doubleColon) (segments.map fun s => [Word.ident s]))
      ("::".intercalate segments) := by
  obtain ⟨s, more, rfl⟩ := List.exists_cons_of_ne_nil hne
  refine .current fun t ht => ?_
  rw [show t.kind = .identifier from ht.kind, if_neg (by decide), if_pos rfl]
  refine .advance (by simp) fun t ht _ => .get fun state hs => ?_
  rw [show t.value = s from congrArg Word.value ht]
  refine Reads.bind_pure (reads_typeSegments [s] more ?_)
  have := (length_le_flatMap (.sign .doubleColon) (more.map fun s => [Word.ident s])).trans hs.le
  rwa [List.length_map] at this

/-- A type that is written as a string. -/
theorem reads_resourceType_string {type : String} (hne : type ≠ "") :
    Reads line resourceType next [.str type] type := by
  refine .current fun t ht => ?_
  rw [show t.kind = .string from ht.kind, if_pos rfl,
    show t.value = type from congrArg Word.value ht]
  refine .advance (by simp) fun _ _ _ => ?_
  rw [if_neg (by simpa using hne)]
  exact .pure _

/-! ### Modifiers -/

/-- The name of a modifier on the same line, and a parenthesis. -/
private theorem Reads.atModifier_true {f : Bool → Reader β} {name : String} {b : β}
    (hname : modifierNames.contains name = true)
    (hf : Reads line (f true) next (.ident name :: .sign .lparen :: ws) b) :
    Reads line (atModifier >>= f) next (.ident name :: .sign .lparen :: ws) b := by
  intro previous ts rest last depth hprevious hline hwords hrest
  obtain ⟨t, ts, rfl, ht, hts⟩ := List.map_eq_cons_iff.1 hwords
  obtain ⟨t', ts, rfl, ht', rfl⟩ := List.map_eq_cons_iff.1 hts
  obtain ⟨previous', hprevious', hrun⟩ :=
    hf previous (t :: t' :: ts) rest last depth hprevious hline hwords hrest
  refine ⟨previous', hprevious', Eq.trans (run_bind_ok ?_) hrun⟩
  have hcurrent : t.kind = .identifier ∧ modifierNames.contains t.value = true ∧
      t.line = previous.line := by
    refine ⟨congrArg Word.kind ht, ?_, (hline t (by simp)).trans hprevious.symm⟩
    rwa [show t.value = name from congrArg Word.value ht]
  have hkind : t'.kind = .lparen := congrArg Word.kind ht'
  unfold atModifier
  rw [run_bind_ok (run_get _), if_pos]
  · rw [run_bind_ok (run_peek _)]
    exact congrArg (fun b => (Except.ok b, _)) (decide_eq_true hkind)
  · exact hcurrent

/-- At the end of the statement there is no modifier. -/
private theorem Reads.atModifier_false {f : Bool → Reader β} {b : β}
    (hf : Reads line (f false) (EndsStatement line) [] b) :
    Reads line (atModifier >>= f) (EndsStatement line) [] b := by
  intro previous ts rest last depth hprevious hline hwords hrest
  obtain rfl := List.map_eq_nil_iff.1 hwords
  obtain ⟨previous', hprevious', hrun⟩ := hf previous [] rest last depth hprevious hline hwords hrest
  refine ⟨previous', hprevious', Eq.trans (run_bind_ok ?_) hrun⟩
  unfold atModifier
  rw [run_bind_ok (run_get _), if_neg]
  · rfl
  · rintro ⟨hkind, -, hsame⟩
    simp only [ReaderState.before, List.nil_append] at hkind hsame
    rcases hrest with h | ⟨-, h⟩
    · exact absurd (h.symm.trans hkind) (by decide)
    · exact h (hsame.trans hprevious)

/-- The words of a modifier. -/
def ReadsModifier (line limit levels : Nat) (m : String × Expr) (ws : List Word) : Prop :=
  ∃ value, ws = .ident m.1 :: .sign .lparen :: (value ++ [.sign .rparen]) ∧
    ReadsInside line limit levels value m.2

private theorem checkPolicy_eq {token : Token} {value : Expr}
    (h : ∀ allowed x, policyValues? token.value = some allowed → value = .name x →
      allowed.contains x = true) : checkPolicy token value = pure () := by
  unfold checkPolicy
  split
  next allowed x hallowed => rw [if_pos (h allowed x hallowed rfl)]
  · rfl

private theorem reads_modifiers {ms : List (String × Expr)} {wss : List (List Word)}
    (h : List.Forall₂ (ReadsModifier line limit levels) ms wss)
    (hnames : ∀ m ∈ ms, modifierNames.contains m.1 = true) (hkeys : (ms.map Prod.fst).Nodup)
    (hpolicy : ∀ m ∈ ms, ∀ allowed x, policyValues? m.1 = some allowed → m.2 = .name x →
      allowed.contains x = true) {seen : List String} (hseen : ∀ m ∈ ms, m.1 ∉ seen) {bound : Nat}
    (hbound : ms.length ≤ bound) :
    Reads line (modifiers (expressionAt limit levels) seen bound) (EndsStatement line) wss.flatten
      ms := by
  induction h generalizing seen bound with
  | nil =>
    cases bound with
    | zero => exact .pure []
    | succ bound => exact .atModifier_false (.pure [])
  | @cons m ws ms wss hm hmore ih =>
    obtain ⟨bound, rfl⟩ := Nat.exists_eq_add_of_le' (Nat.one_le_of_lt hbound)
    obtain ⟨value, rfl, hvalue⟩ := hm
    rw [List.forall_mem_cons] at hnames hpolicy hseen
    obtain ⟨hdiffer, hkeys⟩ := List.nodup_cons.1 hkeys
    have hnew : ¬ seen.contains m.1 = true := by
      rw [List.contains_iff_mem]
      exact hseen.1
    rw [List.flatten_cons, List.cons_append, List.cons_append, List.append_assoc,
      List.singleton_append]
    refine .atModifier_true hnames.1 (.advance (by simp) fun name hname _ => ?_)
    have hvalue' : name.value = m.1 := congrArg Word.value hname
    have hcheck : checkPolicy name m.2 = pure () :=
      checkPolicy_eq fun allowed x => hvalue' ▸ hpolicy.1 allowed x
    rw [hvalue', if_neg hnew]
    refine .expect rfl (by decide) fun _ _ _ => hvalue.reads.bind ?_ fun t ht => ?_
    · refine .expect rfl (by decide) fun _ _ _ => ?_
      rw [hcheck, pure_bind]
      refine Reads.bind_pure (ih hnames.2 hkeys hpolicy.2 (fun m' hm' hmem => ?_)
        (Nat.le_of_succ_le_succ hbound))
      rcases List.mem_cons.1 hmem with heq | hmem
      · exact hdiffer (heq ▸ List.mem_map_of_mem hm')
      · exact hseen.2 m' hm' hmem
    · exact stops_of_mem (by rw [ht.kind]; decide)

/-! ### Declarations -/

/-- The words of properties in braces, one level further in. -/
structure WordedFields (levels : Nat) (fields : List (String × Expr)) (wss : List (List Word)) :
    Prop where
  words : List.Forall₂ (Grammar.WordedField (levels - 1)) fields wss
  levels : fields ≠ [] → 0 < levels
  keys : (fields.map Prod.fst).Nodup

theorem WordedFields.reads {fields : List (String × Expr)} {wss : List (List Word)}
    (h : WordedFields levels fields wss) :
    Reads line (Reader.fields (expressionAt limit levels)) next (Word.enclosed .lbrace .rbrace wss)
      fields :=
  Grammar.reads_fields h.words (fun hne => Nat.sub_one_lt_of_lt (h.levels hne)) h.keys

/-- The words of the properties of a resource, if there are any. -/
inductive WordedProperties (levels : Nat) : Option (List (String × Expr)) → List Word → Prop
  | none : WordedProperties levels none []
  | some {fields : List (String × Expr)} {wss : List (List Word)}
      (h : WordedFields levels fields wss) :
      WordedProperties levels (some fields) (Word.enclosed .lbrace .rbrace wss)

private theorem length_le_flatten {ms : List (String × Expr)} {wss : List (List Word)}
    (h : List.Forall₂ (ReadsModifier line limit levels) ms wss) :
    ms.length ≤ wss.flatten.length := by
  induction h with
  | nil => simp
  | cons hm _ ih =>
    obtain ⟨value, rfl, -⟩ := hm
    rw [List.flatten_cons, List.length_append, List.length_cons, List.length_cons]
    omega

theorem reads_expressionAt_resource {type : String} {properties : Option (List (String × Expr))}
    {ms : List (String × Expr)} {tws pws : List Word} {wss : List (List Word)}
    (ht : Reads line resourceType (fun t => t.kind ≠ .doubleColon) tws type)
    (hp : WordedProperties levels properties pws)
    (h : List.Forall₂ (ReadsModifier line limit levels) ms wss)
    (hnames : ∀ m ∈ ms, modifierNames.contains m.1 = true) (hkeys : (ms.map Prod.fst).Nodup)
    (hpolicy : ∀ m ∈ ms, ∀ allowed x, policyValues? m.1 = some allowed → m.2 = .name x →
      allowed.contains x = true) :
    Reads line (expressionAt limit (levels + 1)) (EndsStatement line)
      (.ident "Resource" :: (tws ++ (pws ++ wss.flatten))) (.resource type properties ms) := by
  refine reads_expressionAt_of_primary fun t ht' => ?_
  have hmore (properties : Option (List (String × Expr))) :
      Reads line (do
          let attributes ← modifiers (expressionAt limit levels) [] (← get).remaining
          return Expr.resource type properties attributes)
        (EndsStatement line) wss.flatten (.resource type properties ms) :=
    .get fun s hs => Reads.bind_pure (reads_modifiers h hnames hkeys hpolicy (by simp)
      ((length_le_flatten h).trans hs.le))
  have hfirst (t : Token) (ht : StartsWith (EndsStatement line) wss.flatten t) :
      t.kind ≠ .lbrace ∧ t.kind ≠ .doubleColon := by
    cases h with
    | nil => exact ⟨EndsStatement.kind_ne ht (by decide), EndsStatement.kind_ne ht (by decide)⟩
    | cons hm _ =>
      obtain ⟨value, rfl, -⟩ := hm
      rw [show t.kind = .identifier from StartsWith.kind ht]
      decide
  have hword : word (expressionAt limit levels) t = resource (expressionAt limit levels) := by
    unfold word
    simp [ht', keywordLiteral?]
  rw [hword]
  refine .expect rfl (by decide) fun _ _ _ => ht.bind ?_ fun t ht => ?_
  · cases hp with
    | none =>
      refine .at_false (fun t ht => (hfirst t ht).1) ?_
      simp only [Bool.false_eq_true, if_false, pure_bind]
      exact hmore none
    | some h =>
      refine .at_true (fun t ht => ht.kind) ?_
      simp only [if_true, map_eq_pure_bind, bind_assoc, pure_bind]
      exact h.reads.bind (hmore _) fun _ h => h
  · cases hp with
    | none => exact (hfirst t ht).2
    | some =>
      rw [show t.kind = .lbrace from StartsWith.kind ht]
      decide

theorem reads_expressionAt_body (kind : BodyKind) {fields : List (String × Expr)}
    {wss : List (List Word)} (h : WordedFields levels fields wss) :
    Reads line (expressionAt limit (levels + 1)) (EndsStatement line)
      (.ident kind.keyword :: Word.enclosed .lbrace .rbrace wss) (.body kind fields) := by
  refine reads_expressionAt_of_primary fun t ht => ?_
  have hword : word (expressionAt limit levels) t = (do
      let _ ← advance
      return .body kind (← declarationBody (expressionAt limit levels) t)) := by
    unfold word
    rw [ht]
    cases kind <;> rfl
  rw [hword]
  refine .advance (by simp) fun _ _ _ => Reads.bind_pure (.at_true (fun t ht => ht.kind) ?_)
  exact h.reads

theorem reads_expressionAt_condition (h : ReadsInside line limit levels ws e) :
    Reads line (expressionAt limit (levels + 1)) (EndsStatement line) (.ident "Condition" :: ws)
      (.condition e) := by
  refine reads_expressionAt_of_primary fun t ht => ?_
  have hword : word (expressionAt limit levels) t = (do
      let _ ← advance
      return .condition (← expressionAt limit levels)) := by
    unfold word
    simp [ht, keywordLiteral?]
  rw [hword]
  refine .advance (by simp) fun _ _ _ => Reads.bind_pure (h.reads.weaken fun t ht => ht.stops)

end StackScript.Reader
