import StackScript.Proofs.Grammar.Endures

/-!
# Walking through the rules

Many facts about readers relate a step to another one, and carry over from steps to what is put
together from them. Such a relation holds of a rule that takes other rules as arguments if it holds
of these. So it carries over from the levels that are left to the rules of all levels, and to the
rule of scripts. A fact about single steps is the case in which the second step does not matter.

## Main definitions

* `Reader.Congruence`: a relation of steps that carries over, with what is known of tokens.

## Main results

* `Reader.Congruence.rel_unaryAt`, `Reader.Congruence.rel_expression`: the rules of expressions,
  with more levels left for the second reader.
* `Reader.Congruence.rel_template`: the rule of scripts, under two limits.
-/

namespace StackScript.Reader

/-- A relation of steps that carries over to what is put together from them. Whatever refuses a
token knows something of it, which is known of every token that is looked at or passed. A step that
is one level too deep is related to every other. -/
structure Congruence where
  rel : ∀ {α : Type}, Reader α → Reader α → Prop
  known : Token → Prop
  pure : ∀ {α : Type} (a : α), rel (pure a : Reader α) (Pure.pure a)
  bind : ∀ {α β : Type} {step step' : Reader α} {f f' : α → Reader β}, rel step step' →
    (∀ a, rel (f a) (f' a)) → rel (step >>= f) (step' >>= f')
  get : rel (get : Reader ReaderState) MonadState.get
  current : ∀ {β : Type} {f f' : Token → Reader β}, (∀ t, known t → rel (f t) (f' t)) →
    rel (current >>= f) (Reader.current >>= f')
  advance : ∀ {β : Type} {f f' : Token → Reader β}, (∀ t, known t → rel (f t) (f' t)) →
    rel (advance >>= f) (Reader.advance >>= f')
  peek : rel peek Reader.peek
  failAt : ∀ {α : Type} {t : Token} {fault : ParseFault}, known t → fault.isTooDeep = false →
    rel (failAt t fault : Reader α) (Reader.failAt t fault)
  tooLong : ∀ {α : Type}, rel (throw .integerTooLong : Reader α) (throw .integerTooLong)
  within : ∀ {α : Type} {step step' : Reader α}, rel step step' →
    rel (within step) (Reader.within step')
  tooDeep : ∀ {α : Type} (limit : Nat) (step : Reader α), rel (tooDeep limit) step

namespace Congruence

variable (c : Congruence) {α β : Type} {step step' : Reader α} {f f' : α → Reader β}

theorem ite {p : Prop} [Decidable p] {other other' : Reader α} (h : c.rel step step')
    (h' : c.rel other other') :
    c.rel (if p then step else other) (if p then step' else other') := by
  split
  · exact h
  · exact h'

theorem map (g : α → β) (h : c.rel step step') : c.rel (g <$> step) (g <$> step') := by
  rw [map_eq_pure_bind, map_eq_pure_bind]
  exact c.bind h fun a => c.pure (g a)

/-! ### Tokens -/

theorem fail {fault : ParseFault} (h : fault.isTooDeep = false) :
    c.rel (fail fault : Reader α) (fail fault) :=
  c.current fun _ ht => c.failAt ht h

theorem at? (kind : TokenKind) : c.rel (at? kind) (at? kind) :=
  c.current fun _ _ => c.pure _

theorem atAny (kinds : List TokenKind) : c.rel (atAny kinds) (atAny kinds) :=
  c.current fun _ _ => c.pure _

theorem acceptAny (kinds : List TokenKind) : c.rel (acceptAny kinds) (acceptAny kinds) :=
  c.bind (c.atAny kinds) fun _ => c.ite (c.advance fun _ _ => c.pure _) (c.pure _)

theorem accept (kind : TokenKind) : c.rel (accept kind) (accept kind) :=
  c.bind (c.acceptAny [kind]) fun _ => c.pure _

theorem expect {kind : TokenKind} {f f' : Token → Reader β}
    (hf : ∀ t, c.known t → c.rel (f t) (f' t)) :
    c.rel (expect kind >>= f) (Reader.expect kind >>= f') := by
  unfold Reader.expect
  rw [bind_assoc, bind_assoc]
  refine c.current fun t ht => ?_
  by_cases hkind : t.kind = kind
  · rw [if_pos hkind]
    exact c.advance hf
  · rw [if_neg hkind]
    exact c.failAt ht rfl

/-! ### Operators -/

section

variable {operand operand' unary unary' : Reader Expr}

theorem rel_operands (sign : TokenKind) (h : c.rel operand operand') (bound : Nat) :
    c.rel (operands sign operand bound) (operands sign operand' bound) := by
  induction bound with
  | zero => exact c.pure _
  | succ bound ih =>
    exact c.bind (c.accept sign) fun _ =>
      c.ite (c.bind h fun _ => c.bind ih fun _ => c.pure _) (c.pure _)

theorem rel_joined (sign : TokenKind) (function : String) (operator : Operator)
    (h : c.rel operand operand') :
    c.rel (joined sign function operator operand) (joined sign function operator operand') :=
  c.bind h fun _ => c.bind c.get fun s => c.bind (c.rel_operands sign h s.remaining) fun _ =>
    c.ite (c.pure _) (c.pure _)

theorem rel_comparison (h : c.rel unary unary') : c.rel (comparison unary) (comparison unary') := by
  refine c.bind h fun left => c.bind (c.acceptAny _) fun sign => ?_
  cases sign with
  | none => exact c.pure _
  | some sign =>
    exact c.bind h fun right => c.bind (c.atAny _) fun _ =>
      c.ite (c.fail rfl) (c.ite (c.pure _) (c.pure _))

theorem rel_conjunction (h : c.rel unary unary') :
    c.rel (conjunction unary) (conjunction unary') :=
  c.rel_joined _ _ _ (c.rel_comparison h)

theorem rel_disjunction (h : c.rel unary unary') :
    c.rel (disjunction unary) (disjunction unary') :=
  c.rel_joined _ _ _ (c.rel_conjunction h)

end

/-! ### Lists of things -/

theorem rel_pathSegments (bound : Nat) : c.rel (pathSegments bound) (pathSegments bound) := by
  induction bound with
  | zero => exact c.pure _
  | succ bound ih =>
    exact c.current fun _ ht => c.ite
      (c.advance fun _ _ => c.bind (c.accept _) fun _ =>
        c.ite (c.bind ih fun _ => c.pure _) (c.pure _))
      (c.failAt ht rfl)

theorem rel_bracketPath : c.rel bracketPath bracketPath :=
  c.expect fun _ _ => c.bind c.get fun s => c.bind (c.rel_pathSegments s.remaining) fun _ =>
    c.expect fun _ _ => c.pure _

section

variable {expr expr' : Reader Expr}

theorem rel_moreArguments (h : c.rel expr expr') (bound : Nat) :
    c.rel (moreArguments expr bound) (moreArguments expr' bound) := by
  induction bound with
  | zero => exact c.pure _
  | succ bound ih =>
    exact c.bind (c.accept _) fun _ =>
      c.ite (c.bind h fun _ => c.bind ih fun _ => c.pure _) (c.pure _)

theorem rel_arguments (h : c.rel expr expr') : c.rel (arguments expr) (arguments expr') :=
  c.bind (c.at? _) fun _ => c.ite (c.pure _) (c.bind h fun _ => c.bind c.get fun s =>
    c.bind (c.rel_moreArguments h s.remaining) fun _ => c.pure _)

theorem rel_arrayItems (h : c.rel expr expr') (bound : Nat) :
    c.rel (arrayItems expr bound) (arrayItems expr' bound) := by
  induction bound with
  | zero => exact c.pure _
  | succ bound ih =>
    exact c.bind (c.at? _) fun _ => c.ite (c.pure _) (c.bind h fun _ =>
      c.bind (c.accept _) fun _ => c.ite (c.bind ih fun _ => c.pure _) (c.pure _))

/-- A key that is no key, or comes twice, is refused at the key. -/
theorem rel_objectFields (h : c.rel expr expr') (bound : Nat) (seen : List String) :
    c.rel (objectFields expr seen bound) (objectFields expr' seen bound) := by
  induction bound generalizing seen with
  | zero => exact c.pure _
  | succ bound ih =>
    refine c.bind (c.at? _) fun _ => c.ite (c.pure _) (c.current fun key hkey =>
      c.ite (c.failAt hkey rfl) (c.advance fun _ _ => c.ite (c.failAt hkey rfl) ?_))
    exact c.expect fun _ _ => c.bind h fun _ => c.bind (c.accept _) fun _ =>
      c.ite (c.bind (ih _) fun _ => c.pure _) (c.pure _)

theorem rel_fields (h : c.rel expr expr') : c.rel (fields expr) (fields expr') :=
  c.expect fun _ _ => c.bind c.get fun s => c.bind (c.rel_objectFields h s.remaining []) fun _ =>
    c.expect fun _ _ => c.pure _

theorem rel_object (h : c.rel expr expr') : c.rel (object expr) (object expr') :=
  c.bind (c.rel_fields h) fun _ => c.pure _

theorem rel_array (h : c.rel expr expr') : c.rel (array expr) (array expr') :=
  c.expect fun _ _ => c.bind c.get fun s => c.bind (c.rel_arrayItems h s.remaining) fun _ =>
    c.expect fun _ _ => c.pure _

/-! ### Calls and declarations -/

theorem rel_checkRef {token : Token} (ht : c.known token) (args : List Expr) :
    c.rel (checkRef token args) (checkRef token args) := by
  unfold checkRef
  split
  · exact c.failAt ht rfl
  · exact c.ite (c.pure _) (c.failAt ht rfl)
  · exact c.failAt ht rfl

/-- A reference is refused at the name of the function, after its closing parenthesis is read. -/
theorem rel_call (h : c.rel expr expr') : c.rel (call expr) (call expr') := by
  refine c.expect fun name hname => c.expect fun _ _ => c.bind (c.rel_arguments h) fun args =>
    c.expect fun _ _ => ?_
  exact c.ite (c.bind (c.rel_checkRef hname args) fun _ => c.pure _) (c.pure _)

theorem rel_typeSegments (bound : Nat) (segments : List String) :
    c.rel (typeSegments segments bound) (typeSegments segments bound) := by
  induction bound generalizing segments with
  | zero => exact c.pure _
  | succ bound ih =>
    exact c.bind (c.accept _) fun _ => c.ite
      (c.current fun _ ht => c.ite (c.advance fun _ _ => ih _) (c.failAt ht rfl)) (c.pure _)

theorem rel_resourceType : c.rel resourceType resourceType := by
  refine c.current fun token ht => c.ite ?_ (c.ite ?_ (c.failAt ht rfl))
  · exact c.advance fun _ _ => c.ite (c.failAt ht rfl) (c.pure _)
  · exact c.advance fun _ _ => c.bind c.get fun s =>
      c.bind (c.rel_typeSegments s.remaining _) fun _ => c.pure _

theorem rel_checkPolicy {token : Token} (ht : c.known token) (value : Expr) :
    c.rel (checkPolicy token value) (checkPolicy token value) := by
  unfold checkPolicy
  split
  · exact c.ite (c.pure _) (c.failAt ht rfl)
  · exact c.pure _

theorem rel_atModifier : c.rel atModifier atModifier :=
  c.bind c.get fun _ => c.ite (c.bind c.peek fun _ => c.pure _) (c.pure _)

theorem rel_modifiers (h : c.rel expr expr') (bound : Nat) (seen : List String) :
    c.rel (modifiers expr seen bound) (modifiers expr' seen bound) := by
  induction bound generalizing seen with
  | zero => exact c.pure _
  | succ bound ih =>
    refine c.bind c.rel_atModifier fun _ => c.ite (c.advance fun name hname =>
      c.ite (c.failAt hname rfl) ?_) (c.pure _)
    exact c.expect fun _ _ => c.bind h fun value => c.expect fun _ _ =>
      c.bind (c.rel_checkPolicy hname value) fun _ => c.bind (ih _) fun _ => c.pure _

theorem rel_resource (h : c.rel expr expr') : c.rel (resource expr) (resource expr') := by
  have hrest (type : String) (properties : Option (List (String × Expr))) :
      c.rel (do
          let attributes ← modifiers expr [] (← MonadState.get).remaining
          return Expr.resource type properties attributes : Reader Expr)
        (do
          let attributes ← modifiers expr' [] (← MonadState.get).remaining
          return Expr.resource type properties attributes) :=
    c.bind c.get fun s => c.bind (c.rel_modifiers h s.remaining []) fun _ => c.pure _
  exact c.expect fun _ _ => c.bind c.rel_resourceType fun type => c.bind (c.at? _) fun _ =>
    c.ite (c.bind (c.map _ (c.rel_fields h)) (hrest type)) (c.bind (c.pure none) (hrest type))

theorem rel_declarationBody (h : c.rel expr expr') (keyword : Token) :
    c.rel (declarationBody expr keyword) (declarationBody expr' keyword) := by
  have hrefuse : c.rel (do
        Reader.fail (.bodyNeedsObject keyword.value (← Reader.current)) :
          Reader (List (String × Expr)))
      (do Reader.fail (.bodyNeedsObject keyword.value (← Reader.current))) :=
    c.current fun _ _ => c.fail rfl
  refine c.bind (c.at? _) fun _ => c.ite (c.rel_fields h) (c.bind (c.at? _) fun _ =>
    c.ite (c.bind c.peek fun _ => c.ite ?_ hrefuse) hrefuse)
  exact c.advance fun _ _ => c.bind (c.rel_fields h) fun _ => c.expect fun _ _ => c.pure _

/-! ### Primary expressions and attribute access -/

theorem rel_word (h : c.rel expr expr') (token : Token) :
    c.rel (word expr token) (word expr' token) := by
  unfold word
  cases keywordLiteral? token.value with
  | some value => exact c.advance fun _ _ => c.pure _
  | none =>
    refine c.ite (c.rel_resource h) (c.ite ?_ ?_)
    · exact c.advance fun _ _ => c.bind h fun _ => c.pure _
    cases BodyKind.ofKeyword? token.value with
    | some kind =>
      exact c.advance fun _ _ => c.bind (c.rel_declarationBody h token) fun _ => c.pure _
    | none =>
      exact c.bind c.peek fun _ => c.ite (c.rel_call h) (c.advance fun _ _ => c.pure _)

theorem rel_primary (h : c.rel expr expr') : c.rel (primary expr) (primary expr') := by
  refine c.current fun token ht => ?_
  cases token.kind with
  | string => exact c.advance fun _ _ => c.pure _
  | number =>
    refine c.advance fun _ _ => ?_
    cases numberValue token.value.toList with
    | some value => exact c.pure _
    | none => exact c.tooLong
  | lbrace => exact c.rel_object h
  | lbracket => exact c.rel_array h
  | lparen => exact c.advance fun _ _ => c.bind h fun _ => c.expect fun _ _ => c.pure _
  | identifier => exact c.rel_word h token
  | _ => exact c.failAt ht rfl

theorem rel_dotted {dot : Token} (hdot : c.known dot) (base : Expr) (attr : String) :
    c.rel (dotted base dot attr) (dotted base dot attr) := by
  unfold dotted
  split
  · exact c.ite (c.pure _) (c.ite (c.failAt hdot rfl) (c.pure _))
  · exact c.pure _
  · exact c.pure _

theorem rel_accesses (bound : Nat) (base : Expr) :
    c.rel (accesses base bound) (accesses base bound) := by
  induction bound generalizing base with
  | zero => exact c.pure _
  | succ bound ih =>
    refine c.bind (c.at? _) fun _ => c.ite ?_ (c.bind (c.at? _) fun _ => c.ite ?_ (c.pure _))
    · exact c.advance fun dot hdot => c.expect fun attr _ =>
        c.bind (c.rel_dotted hdot base attr.value) fun _ => ih _
    · exact c.bind c.rel_bracketPath fun _ => ih _

theorem rel_suffixed (h : c.rel expr expr') : c.rel (suffixed expr) (suffixed expr') :=
  c.bind (c.rel_primary h) fun base => c.bind c.get fun s => c.rel_accesses s.remaining base

/-! ### All levels -/

theorem rel_unary {negated negated' : Reader Expr} (hn : c.rel negated negated')
    (h : c.rel expr expr') : c.rel (unary negated expr) (unary negated' expr') :=
  c.bind (c.accept _) fun _ => c.ite (c.bind hn fun _ => c.pure _) (c.rel_suffixed h)

end

variable {limit limit' : Nat}

theorem rel_unaryAt (limit limit' : Nat) {n n' : Nat} (hn : n ≤ n') :
    c.rel (unaryAt limit n) (unaryAt limit' n') := by
  induction n generalizing n' with
  | zero =>
    cases n' with
    | zero => exact c.rel_unary (c.tooDeep _ _) (c.tooDeep _ _)
    | succ n' => exact c.rel_unary (c.tooDeep _ _) (c.tooDeep _ _)
  | succ n ih =>
    obtain ⟨n', rfl⟩ := Nat.exists_eq_add_of_le' (Nat.le_of_add_left_le hn)
    have hunary := ih (Nat.le_of_succ_le_succ hn)
    exact c.rel_unary (c.within hunary) (c.within (c.rel_disjunction hunary))

theorem rel_expressionAt (limit limit' : Nat) {n n' : Nat} (hn : n ≤ n') :
    c.rel (expressionAt limit n) (expressionAt limit' n') := by
  cases n with
  | zero => exact c.tooDeep _ _
  | succ n =>
    obtain ⟨n', rfl⟩ := Nat.exists_eq_add_of_le' (Nat.le_of_add_left_le hn)
    exact c.within (c.rel_disjunction (c.rel_unaryAt limit limit' (Nat.le_of_succ_le_succ hn)))

/-- A higher limit leaves more levels. -/
theorem rel_atLevel {rule rule' : Nat → Reader α} (hle : limit ≤ limit')
    (h : ∀ n n', n ≤ n' → c.rel (rule n) (rule' n')) :
    c.rel (atLevel limit rule) (atLevel limit' rule') :=
  c.bind c.get fun _ => h _ _ (Nat.sub_le_sub_right hle _)

theorem rel_expression (hle : limit ≤ limit') : c.rel (expression limit) (expression limit') :=
  c.rel_atLevel hle fun _ _ => c.rel_expressionAt limit limit'

/-! ### Scripts -/

/-- A value that a header does not allow is refused at the token it starts with. -/
theorem rel_header (hle : limit ≤ limit') (kind : Header) :
    c.rel (header limit kind) (header limit' kind) := by
  refine c.advance fun _ _ => c.current fun _ ht => c.bind (c.rel_expression hle) fun _ =>
    c.ite (c.pure _) (c.failAt ht ?_)
  cases kind <;> rfl

theorem rel_assignment (hle : limit ≤ limit') : c.rel (assignment limit) (assignment limit') :=
  c.advance fun _ _ => c.expect fun _ _ => c.current fun _ ht => c.bind (c.rel_expression hle)
    fun _ => c.ite (c.pure _) (c.failAt ht rfl)

theorem rel_statement (hle : limit ≤ limit') : c.rel (statement limit) (statement limit') := by
  refine c.current fun token _ => ?_
  dsimp only
  cases (if token.kind = .identifier then Header.ofKeyword? token.value else none) with
  | some kind => exact c.bind c.peek fun _ => c.ite (c.rel_assignment hle) (c.rel_header hle kind)
  | none => exact c.ite (c.rel_assignment hle) (c.fail rfl)

theorem rel_noteStatement {token : Token} (ht : c.known token) (seen : Seen) (st : Statement) :
    c.rel (noteStatement token seen st) (noteStatement token seen st) := by
  cases st with
  | assign name value line => exact c.ite (c.failAt ht rfl) (c.pure _)
  | header kind value => exact c.ite (c.failAt ht rfl) (c.pure _)

theorem rel_statements (hle : limit ≤ limit') (bound : Nat) (seen : Seen) :
    c.rel (statements limit seen bound) (statements limit' seen bound) := by
  induction bound generalizing seen with
  | zero => exact c.pure _
  | succ bound ih =>
    exact c.current fun token ht => c.ite (c.pure _) (c.bind (c.rel_statement hle) fun st =>
      c.bind (c.rel_noteStatement ht seen st) fun _ => c.bind (ih _) fun _ => c.pure _)

theorem rel_template (hle : limit ≤ limit') : c.rel (template limit) (template limit') :=
  c.bind c.get fun s => c.bind (c.rel_statements hle s.remaining {}) fun _ => c.pure _

end Congruence

end StackScript.Reader
