import StackScript.Proofs.Decompile.Congruence
import StackScript.Proofs.Nesting.Reader

/-!
# The nesting level of reading a document

Every part of a document is read on the level that it was begun on, whether this succeeds or fails,
and ends one above if it nests too deep. So neither a reader of scripts nor a reader of documents
loses count in a run of operations, also if operations go on after failures.

## Main definitions

* `Decompile.levels`: how the reading of a document counts its levels.
* `Decompile.Operation`: the parts that are read, each begun on the level of the current state.

## Main results

* `Decompile.restoring`: what is put together from steps that restore the level restores it.
* `level_restored`: the operations of a run, on scripts and on documents.
-/

namespace StackScript

namespace Decompile

open LevelCount

variable {α : Type}

/-- How the reading of a document counts its levels. -/
def levels : LevelCount DecompileError DecompileState where
  depth := DecompileState.depth
  isTooDeep := DecompileError.isTooDeep

/-! ### Steps -/

theorem restores_within {step : Decompile α} (h : levels.Restores step) :
    levels.Restores (within step) := by
  have hwithin := Restores.within (fun s : DecompileState => { s with depth := s.depth + 1 })
    (fun s => { s with depth := s.depth - 1 }) (fun _ => rfl) (fun _ => rfl) h
  exact hwithin

/-- The level that is one too many is counted and not left. -/
theorem restores_tooDeep (limit : Nat) : levels.Restores (tooDeep limit : Decompile α) :=
  fun _ => rfl

/-- That the level is restored carries over from steps to what is put together from them. -/
def restoring : WarningCongruence where
  rel step _ := levels.Restores step
  pure := .pure
  bind h hf := h.bind hf
  atDepth hf s := hf s.depth s
  warn _ := .modify fun _ => rfl
  throw h _ := .throw h
  within := restores_within
  tooDeep limit _ := restores_tooDeep limit

/-! ### Operations -/

/-- The parts of a document that can be read. -/
inductive Operation where
  | value (v : Value)
  | resource (name : String) (v : Value)
  | declaration (kind : DeclKind) (name : String) (v : Value)
  | template

/-- An operation on a document, begun on the level of the current state. -/
def Operation.perform (scope : Scope) : Operation → Decompile Unit
  | .value v => discard (Decompile.value scope.limit scope.symbols v)
  | .resource name v => discard (Decompile.resource scope name v)
  | .declaration kind name v => discard (Decompile.declaration scope kind name v)
  | .template => discard (Decompile.template scope)

/-- Every operation restores the level. -/
theorem restores_perform (scope : Scope) (operation : Operation) :
    levels.Restores (operation.perform scope) := by
  have hle := Nat.le_refl scope.limit
  cases operation with
  | value v => exact Restores.map (restoring.rel_value hle rfl trivial) _
  | resource name v => exact Restores.map (restoring.rel_resource hle rfl name trivial) _
  | declaration kind name v =>
    exact Restores.map (restoring.rel_declaration hle rfl kind name trivial) _
  | template => exact Restores.map (restoring.rel_template hle rfl trivial rfl) _

end Decompile

/-! ### Runs -/

/-- Every operation on a script or on a document ends on the level that it was begun on, or exactly
one above if it fails because of its nesting, also in runs that go on after failures. -/
theorem level_restored :
    (∀ limit text start operations, ReaderState.start text = .ok start →
      ∀ p ∈ trace (Reader.Operation.perform limit) operations start,
        p.after.depth = match p.result with
          | .ok () => p.before.depth
          | .error e => if e.isTooDeep then p.before.depth + 1 else p.before.depth) ∧
    ∀ limit document scope operations, Decompile.Scope.ofDocument limit document = .ok scope →
      ∀ p ∈ trace (Decompile.Operation.perform scope) operations {},
        p.after.depth = match p.result with
          | .ok () => p.before.depth
          | .error e => if e.isTooDeep then p.before.depth + 1 else p.before.depth := by
  constructor
  · intro limit text start operations _ p hp
    have h := LevelCount.restored_of_mem_trace (Reader.restores_perform limit) hp
    revert h
    cases p.result <;> exact id
  · intro limit document scope operations _ p hp
    have h := LevelCount.restored_of_mem_trace (Decompile.restores_perform scope) hp
    revert h
    cases p.result <;> exact id

/-- What is inside an array or a list is too deep for one level. The level that this leaves behind
makes the next value too deep as well, and changes nothing for what does not nest. -/
theorem level_restored_nested :
    (∃ start, ReaderState.start "[[1]]".toList = .ok start ∧
      (trace (Reader.Operation.perform 1) [.expression, .advance, .expression] start).map
        (fun p => (p.before.depth, p.after.depth)) = [(0, 1), (1, 1), (1, 2)] ∧
      ∀ p ∈ trace (Reader.Operation.perform 1) [.expression, .advance, .expression] start,
        p.after.depth = match p.result with
          | .ok () => p.before.depth
          | .error e => if e.isTooDeep then p.before.depth + 1 else p.before.depth) ∧
    ∃ scope, Decompile.Scope.ofDocument 1 (.map []) = .ok scope ∧
      (trace (Decompile.Operation.perform scope)
        [.value (.list [.int 1]), .template, .value (.int 1)] {}).map
          (fun p => (p.before.depth, p.after.depth)) = [(0, 1), (1, 1), (1, 2)] ∧
      ∀ p ∈ trace (Decompile.Operation.perform scope)
          [.value (.list [.int 1]), .template, .value (.int 1)] {},
        p.after.depth = match p.result with
          | .ok () => p.before.depth
          | .error e => if e.isTooDeep then p.before.depth + 1 else p.before.depth := by
  refine ⟨?_, ?_⟩
  · have hdepths : ((ReaderState.start "[[1]]".toList).toOption.map fun start =>
        (trace (Reader.Operation.perform 1) [.expression, .advance, .expression] start).map
          fun p => (p.before.depth, p.after.depth)) = some [(0, 1), (1, 1), (1, 2)] := by
      decide +kernel
    cases hstart : ReaderState.start "[[1]]".toList with
    | error e =>
      rw [hstart] at hdepths
      cases hdepths
    | ok start =>
      rw [hstart] at hdepths
      exact ⟨start, rfl, Option.some.inj hdepths, level_restored.1 1 _ start _ hstart⟩
  · exact ⟨_, rfl, by decide +kernel, level_restored.2 1 (.map []) _ _ rfl⟩

end StackScript
