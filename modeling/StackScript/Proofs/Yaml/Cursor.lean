import Mathlib.Data.List.TakeWhile
import StackScript.Yaml.Cursor

/-!
# Moving through a text

What is left of a text after a cursor has been moved, and the line and the index where it stands. A
cursor stays on its line as long as it passes no line break.

## Main results

* `Yaml.Cursor.rest_move`, `Yaml.Cursor.index_move`: moving by a number of characters.
* `Yaml.Cursor.takeWhile_eq`: passing a run of characters.
* `Yaml.Cursor.line_move_eq_iff`: staying on a line.
-/

namespace StackScript.Yaml.Cursor

variable {c : Cursor} {ch : Char} {n : Nat} {run tail : List Char} {p : Char → Bool}

@[simp] theorem rest_advance (c : Cursor) : c.advance.rest = c.rest.tail := by
  unfold advance
  cases h : c.rest with
  | nil => simp [h]
  | cons ch rest =>
    dsimp only
    split_ifs <;> rfl

theorem rest_move (c : Cursor) (n : Nat) : (c.move n).rest = c.rest.drop n := by
  induction n generalizing c with
  | zero => rfl
  | succ n ih => rw [move, ih, rest_advance, List.drop_tail]

@[simp] theorem move_one (c : Cursor) : c.move 1 = c.advance := rfl

theorem move_move (c : Cursor) (m n : Nat) : (c.move m).move n = c.move (m + n) := by
  induction m generalizing c with
  | zero => rw [Nat.zero_add, move]
  | succ m ih => rw [move, ih, Nat.add_right_comm, move]

theorem rest_move_of_append (h : c.rest = run ++ tail) : (c.move run.length).rest = tail := by
  rw [rest_move, h, List.drop_left]

theorem head?_of_rest {rest : List Char} (h : c.rest = ch :: rest) : c.head? = some ch := by
  rw [head?, h, List.head?_cons]

/-- A run of characters that ends where `p` ends. -/
theorem takeWhile_eq (h : c.rest = run ++ tail) (hrun : ∀ ch ∈ run, p ch = true)
    (htail : ∀ ch ∈ tail.head?, p ch = false) : c.takeWhile p = (run, c.move run.length) := by
  have hnil : tail.takeWhile p = [] := by
    cases tail with
    | nil => rfl
    | cons ch tail => simp [htail ch rfl]
  have htake : c.rest.takeWhile p = run := by
    rw [h, List.takeWhile_append_of_pos hrun, hnil, List.append_nil]
  simp only [takeWhile, htake]

theorem atTriple_eq_false {mark : Char} {rest : List Char} (h : c.rest = ch :: rest)
    (hne : ch ≠ mark) : c.atTriple mark = false := by
  unfold atTriple
  rw [h]
  split
  next heq =>
    cases heq
    simp [hne]
  · rfl

/-! ### Lines -/

theorem index_move (h : n ≤ c.rest.length) : (c.move n).index = c.index + n := by
  induction n generalizing c with
  | zero => rfl
  | succ n ih =>
    obtain ⟨ch, rest, hrest⟩ : ∃ ch rest, c.rest = ch :: rest :=
      List.exists_cons_of_length_pos (Nat.zero_lt_of_lt h)
    have hadvance : c.advance.index = c.index + 1 := by
      unfold advance
      rw [hrest]
      dsimp only
      split_ifs <;> rfl
    rw [move, ih, hadvance, Nat.add_right_comm, Nat.add_assoc]
    rw [rest_advance, hrest, List.tail_cons]
    rw [hrest, List.length_cons] at h
    exact Nat.le_of_succ_le_succ h

theorem line_le_advance (c : Cursor) : c.line ≤ c.advance.line := by
  unfold advance
  split
  · exact Nat.le_refl _
  · split_ifs
    · exact Nat.le_succ _
    · exact Nat.le_refl _
    · exact Nat.le_refl _

theorem line_le_move (c : Cursor) (n : Nat) : c.line ≤ (c.move n).line := by
  induction n generalizing c with
  | zero => exact Nat.le_refl _
  | succ n ih => exact (line_le_advance c).trans (ih c.advance)

theorem line_advance {ch : Char} {rest : List Char} (h : c.rest = ch :: rest)
    (hcr : ch ≠ '\r') : c.advance.line = if isBreak ch then c.line + 1 else c.line := by
  unfold advance
  rw [h]
  dsimp only
  by_cases hbreak : isBreak ch = true
  · simp [hbreak, hcr]
  · simp only [hbreak, Bool.false_and, Bool.false_eq_true, if_false]
    split_ifs <;> rfl

/-- The line stays the same if and only if no line break is passed. -/
theorem line_move_eq_iff {run tail : List Char} (h : c.rest = run ++ tail) (hcr : '\r' ∉ run) :
    (c.move run.length).line = c.line ↔ ∀ ch ∈ run, isBreak ch = false := by
  induction run generalizing c with
  | nil => simp [move]
  | cons ch run ih =>
    rw [List.mem_cons, not_or] at hcr
    have hline := line_advance h (Ne.symm hcr.1)
    have hrest : c.advance.rest = run ++ tail := by
      rw [rest_advance, h, List.cons_append, List.tail_cons]
    rw [List.length_cons, move, List.forall_mem_cons, ← ih hrest hcr.2, hline]
    by_cases hbreak : isBreak ch = true
    · have hle := line_le_move c.advance run.length
      rw [hline] at hle
      simp only [hbreak, if_true] at hle ⊢
      simp only [Bool.true_eq_false, false_and, iff_false]
      omega
    · simp [hbreak]

end StackScript.Yaml.Cursor
