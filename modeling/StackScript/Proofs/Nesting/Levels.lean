/-!
# Steps that count their nesting levels

A step that goes further in counts the level, and leaves it again whatever happens inside. Only the
level that is one too many is counted and not left. So a step ends on the level that it was begun
on, or exactly one above it if it fails by nesting too deep, no matter how deep inside that happens.

## Main definitions

* `LevelCount`: how a kind of step counts its levels.
* `LevelCount.Restores`: the step ends on the level that it was begun on, up to that exception.
* `Performed`, `trace`: operations one after the other, also after failures.

## Main results

* `LevelCount.Restores.bind`, `LevelCount.Restores.within`: steps that are put together.
* `LevelCount.restored_of_mem_trace`: every operation of a run restores the level.
-/

namespace StackScript

variable {ε σ α β : Type}

/-- How a kind of step counts its levels: the level of a state, and the errors of nesting too
deep. -/
structure LevelCount (ε σ : Type) where
  depth : σ → Nat
  isTooDeep : ε → Bool

namespace LevelCount

/-- The level on which a step with a given result ends, if it was begun on the level `depth`. -/
def final (count : LevelCount ε σ) (depth : Nat) : Except ε α → Nat
  | .ok _ => depth
  | .error e => if count.isTooDeep e then depth + 1 else depth

/-- A step that ends on the level that it was begun on, or one above if it nests too deep. -/
def Restores (count : LevelCount ε σ) (step : ExceptT ε (StateM σ) α) : Prop :=
  ∀ s, count.depth (step.run.run s).2 = count.final (count.depth s) (step.run.run s).1

variable {count : LevelCount ε σ}

namespace Restores

variable {step : ExceptT ε (StateM σ) α} {f : α → ExceptT ε (StateM σ) β}

theorem pure (a : α) : count.Restores (pure a) := fun _ => rfl

theorem throw {e : ε} (h : count.isTooDeep e = false) :
    count.Restores (throw e : ExceptT ε (StateM σ) α) := by
  intro s
  change count.depth s = if count.isTooDeep e then count.depth s + 1 else count.depth s
  rw [h]
  rfl

theorem modify {g : σ → σ} (h : ∀ s, count.depth (g s) = count.depth s) :
    count.Restores (modify g : ExceptT ε (StateM σ) Unit) := h

/-- The second step is begun where the first one has succeeded, on the same level. -/
theorem bind (h : count.Restores step) (hf : ∀ a, count.Restores (f a)) :
    count.Restores (step >>= f) := by
  intro s
  have hrun : (step >>= f).run.run s = match step.run.run s with
      | (.ok a, t) => (f a).run.run t
      | (.error e, t) => (.error e, t) := by
    cases hstep : step.run.run s with
    | mk r t =>
      cases r <;>
        · simp only [ExceptT.run_bind, StateT.run_bind, hstep]
          rfl
  have hs := h s
  rw [hrun]
  cases hstep : step.run.run s with
  | mk r t =>
    rw [hstep] at hs
    cases r with
    | error e => exact hs
    | ok a =>
      replace hs : count.depth t = count.depth s := hs
      have ht := hf a t
      rw [hs] at ht
      exact ht

theorem map (h : count.Restores step) (g : α → β) : count.Restores (g <$> step) := by
  rw [map_eq_pure_bind]
  exact h.bind fun a => .pure (g a)

/-- A step one level further in: the level that it leaves on is one above, also where it has nested
too deep. -/
theorem within (enter leave : σ → σ) (henter : ∀ s, count.depth (enter s) = count.depth s + 1)
    (hleave : ∀ s, count.depth (leave s) = count.depth s - 1) (h : count.Restores step) :
    count.Restores (α := α) fun s => ((step (enter s)).1, leave (step (enter s)).2) := by
  intro s
  have hs := h (enter s)
  rw [henter] at hs
  change count.depth (leave (step (enter s)).2) = count.final (count.depth s) (step (enter s)).1
  rw [hleave]
  change count.depth (step (enter s)).2 = count.final _ (step (enter s)).1 at hs
  rw [hs]
  cases (step (enter s)).1 with
  | ok a => rfl
  | error e =>
    change (if count.isTooDeep e then count.depth s + 1 + 1 else count.depth s + 1) - 1 =
      if count.isTooDeep e then count.depth s + 1 else count.depth s
    split <;> rfl

end Restores

end LevelCount

/-! ### Runs -/

variable {ω : Type}

/-- An operation that has been performed: the states around it, and its result. -/
structure Performed (ε σ : Type) where
  before : σ
  result : Except ε Unit
  after : σ

/-- Operations one after the other. A failure does not end the run. -/
def trace (perform : ω → ExceptT ε (StateM σ) Unit) : List ω → σ → List (Performed ε σ)
  | [], _ => []
  | operation :: rest, s =>
    let (result, after) := (perform operation).run.run s
    ⟨s, result, after⟩ :: trace perform rest after

/-- An operation of a run restores the level, whatever has happened before it. -/
theorem LevelCount.restored_of_mem_trace {count : LevelCount ε σ}
    {perform : ω → ExceptT ε (StateM σ) Unit}
    (h : ∀ operation, count.Restores (perform operation)) {operations : List ω} {s : σ}
    {p : Performed ε σ} (hp : p ∈ trace perform operations s) :
    count.depth p.after = count.final (count.depth p.before) p.result := by
  induction operations generalizing s with
  | nil => cases hp
  | cons operation rest ih =>
    obtain rfl | hp := List.mem_cons.1 hp
    · exact h operation s
    · exact ih hp

end StackScript
