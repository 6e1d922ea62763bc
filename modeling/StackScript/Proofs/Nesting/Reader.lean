import StackScript.Proofs.Grammar.Congruence
import StackScript.Proofs.Nesting.Levels

/-!
# The nesting level of a reader

Every rule of the grammar ends on the level that it was begun on, whether it succeeds or fails, and
one above if it nests too deep. This carries over from single steps to the rules of all levels.

## Main definitions

* `Reader.levels`: how a reader counts its levels.
* `Reader.Operation`: the operations of a reader, each begun on the level of the current state.

## Main results

* `Reader.restoring`: what is put together from steps that restore the level restores it.
* `Reader.restores_perform`: the operations of a reader.
-/

namespace StackScript.Reader

open LevelCount

variable {α β : Type}

/-- How a reader counts its levels. -/
def levels : LevelCount ScriptError ReaderState where
  depth := ReaderState.depth
  isTooDeep := ScriptError.isTooDeep

/-! ### Levels -/

theorem restores_within {step : Reader α} (h : levels.Restores step) :
    levels.Restores (within step) := by
  have hwithin := Restores.within (fun s : ReaderState => { s with depth := s.depth + 1 })
    (fun s => { s with depth := s.depth - 1 }) (fun _ => rfl) (fun _ => rfl) h
  exact hwithin

/-- The level that is one too many is counted and not left. -/
theorem restores_tooDeep (limit : Nat) : levels.Restores (tooDeep limit : Reader α) := fun _ => rfl

/-! ### Tokens -/

theorem restores_advance : levels.Restores advance := by
  intro s
  by_cases heof : s.current.kind = .eof
  · rw [run_advance_eof heof]
    rfl
  · cases hnext : s.following.head with
    | ok t =>
      rw [run_advance_ok heof hnext]
      rfl
    | error e =>
      unfold advance
      rw [run_bind_ok (run_get s), if_neg heof, hnext]
      rfl

theorem restores_peek : levels.Restores peek := by
  intro s
  rw [run_peek]
  cases s.following.head <;> rfl

/-! ### Rules -/

/-- That the level is restored carries over from steps to what is put together from them. -/
def restoring : Congruence where
  rel step _ := levels.Restores step
  known _ := True
  pure := .pure
  bind h hf := h.bind hf
  get _ := rfl
  current hf := .bind (fun _ => rfl) fun t => hf t trivial
  advance hf := restores_advance.bind fun t => hf t trivial
  peek := restores_peek
  failAt _ h := .throw h
  tooLong := .throw rfl
  within := restores_within
  tooDeep limit _ := restores_tooDeep limit

/-! ### Operations -/

/-- The operations of a reader: handling of tokens, and the rules of the grammar. -/
inductive Operation where
  | advance
  | peek
  | accept (kinds : List TokenKind)
  | expect (kind : TokenKind)
  | template
  | statement
  | header (kind : Header)
  | assignment
  | expression
  | disjunction
  | conjunction
  | comparison
  | unary
  | suffixed
  | bracketPath
  | primary
  | call
  | object
  | array
  | declarationBody (keyword : Token)
  | resource
  | resourceType

/-- An operation under a nesting limit, begun on the level of the current state. -/
def Operation.perform (limit : Nat) : Operation → Reader Unit
  | .advance => discard Reader.advance
  | .peek => discard Reader.peek
  | .accept kinds => discard (acceptAny kinds)
  | .expect kind => discard (Reader.expect kind)
  | .template => discard (Reader.template limit)
  | .statement => discard (Reader.statement limit)
  | .header kind => discard (Reader.header limit kind)
  | .assignment => discard (Reader.assignment limit)
  | .expression => discard (Reader.expression limit)
  | .disjunction => discard (atLevel limit fun n => Reader.disjunction (unaryAt limit n))
  | .conjunction => discard (atLevel limit fun n => Reader.conjunction (unaryAt limit n))
  | .comparison => discard (atLevel limit fun n => Reader.comparison (unaryAt limit n))
  | .unary => discard (atLevel limit (unaryAt limit))
  | .suffixed => discard (atLevel limit fun n => Reader.suffixed (expressionAt limit n))
  | .bracketPath => discard Reader.bracketPath
  | .primary => discard (atLevel limit fun n => Reader.primary (expressionAt limit n))
  | .call => discard (atLevel limit fun n => Reader.call (expressionAt limit n))
  | .object => discard (atLevel limit fun n => Reader.object (expressionAt limit n))
  | .array => discard (atLevel limit fun n => Reader.array (expressionAt limit n))
  | .declarationBody keyword =>
    discard (atLevel limit fun n => Reader.declarationBody (expressionAt limit n) keyword)
  | .resource => discard (atLevel limit fun n => Reader.resource (expressionAt limit n))
  | .resourceType => discard Reader.resourceType

/-- Every operation restores the level. -/
theorem restores_perform (limit : Nat) (operation : Operation) :
    levels.Restores (operation.perform limit) := by
  have hle := Nat.le_refl limit
  have hexpr {rule : Reader Expr → Reader Expr}
      (h : ∀ {expr expr'}, restoring.rel expr expr' → restoring.rel (rule expr) (rule expr')) :
      levels.Restores (atLevel limit fun n => rule (expressionAt limit n)) :=
    restoring.rel_atLevel hle fun _ _ hn => h (restoring.rel_expressionAt limit limit hn)
  have hunary {rule : Reader Expr → Reader Expr}
      (h : ∀ {expr expr'}, restoring.rel expr expr' → restoring.rel (rule expr) (rule expr')) :
      levels.Restores (atLevel limit fun n => rule (unaryAt limit n)) :=
    restoring.rel_atLevel hle fun _ _ hn => h (restoring.rel_unaryAt limit limit hn)
  have hexpect (kind : TokenKind) : levels.Restores (expect kind) := by
    rw [← bind_pure (expect kind)]
    exact restoring.expect fun t _ => restoring.pure t
  cases operation with
  | advance => exact restores_advance.map _
  | peek => exact restores_peek.map _
  | accept kinds => exact Restores.map (restoring.acceptAny kinds) _
  | expect kind => exact (hexpect kind).map _
  | template => exact Restores.map (restoring.rel_template hle) _
  | statement => exact Restores.map (restoring.rel_statement hle) _
  | header kind => exact Restores.map (restoring.rel_header hle kind) _
  | assignment => exact Restores.map (restoring.rel_assignment hle) _
  | expression => exact Restores.map (restoring.rel_expression hle) _
  | disjunction => exact (hunary restoring.rel_disjunction).map _
  | conjunction => exact (hunary restoring.rel_conjunction).map _
  | comparison => exact (hunary restoring.rel_comparison).map _
  | unary => exact (hunary fun h => h).map _
  | suffixed => exact (hexpr restoring.rel_suffixed).map _
  | bracketPath => exact Restores.map restoring.rel_bracketPath _
  | primary => exact (hexpr restoring.rel_primary).map _
  | call => exact (hexpr restoring.rel_call).map _
  | object => exact (hexpr restoring.rel_object).map _
  | array => exact (hexpr restoring.rel_array).map _
  | declarationBody keyword =>
    exact Restores.map (restoring.rel_atLevel hle fun _ _ hn =>
      restoring.rel_declarationBody (restoring.rel_expressionAt limit limit hn) keyword) _
  | resource => exact (hexpr restoring.rel_resource).map _
  | resourceType => exact Restores.map restoring.rel_resourceType _

end StackScript.Reader
