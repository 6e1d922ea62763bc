import Mathlib.Data.List.DropRight
import StackScript.Proofs.Text.Split
import StackScript.Text.Lines

/-!
# Places in a text

A place in a text is given by the characters before it: its line is counted by the line feeds among
them, and its column by the characters after the last one. Such a line is always there, and its text
reaches at least up to the column before the place.

## Main definitions

* `Text.lineAfter`, `Text.columnAfter`: the line and the column after some characters.
* `Text.lastLine`: what stands after the last line feed.

## Main results

* `Text.lines_append`: the lines of a text from the lines on both sides of a line feed.
* `Text.getElem?_lines`: the line that a place is on.
-/

namespace StackScript.Text

/-- The line after some characters, counted from one. -/
def lineAfter (text : List Char) : Nat := text.count '\n' + 1

/-- The characters after the last line feed. -/
def lastLine (text : List Char) : List Char := text.rtakeWhile (· != '\n')

/-- The column after some characters, counted from one. -/
def columnAfter (text : List Char) : Nat := (lastLine text).length + 1

/-! ### The last line -/

theorem newline_notMem_lastLine (text : List Char) : '\n' ∉ lastLine text := fun h =>
  absurd (List.mem_rtakeWhile_imp h) (by simp)

/-- A text is its last line, or ends with it after a line feed. -/
theorem exists_lastLine (text : List Char) :
    lastLine text = text ∨ ∃ before, text = before ++ '\n' :: lastLine text := by
  have hsplit : text.rdropWhile (· != '\n') ++ lastLine text = text :=
    List.rdropWhile_append_rtakeWhile
  by_cases hnil : text.rdropWhile (· != '\n') = []
  · rw [hnil] at hsplit
    exact .inl hsplit
  · have hlast : (text.rdropWhile (· != '\n')).getLast hnil = '\n' := by
      simpa using List.rdropWhile_last_not (· != '\n') text hnil
    refine .inr ⟨(text.rdropWhile (· != '\n')).dropLast, ?_⟩
    rw [← List.dropLast_append_getLast hnil, hlast, List.append_assoc] at hsplit
    exact hsplit.symm

/-! ### Lines -/

theorem length_lines (text : List Char) : (lines text).length = text.count '\n' + 1 := by
  unfold lines
  induction text with
  | nil => rfl
  | cons c text ih =>
    rw [splitAtChar, List.count_cons]
    split_ifs with hc
    · rw [List.length_cons, ih]
    · obtain ⟨part, more, hparts⟩ := List.exists_cons_of_ne_nil (splitAtChar_ne_nil '\n' text)
      rw [hparts] at ih ⊢
      exact ih

/-- The lines on both sides of a line feed. -/
theorem lines_append (before text : List Char) :
    lines (before ++ '\n' :: text) = lines before ++ lines text := by
  unfold lines
  induction before with
  | nil => rfl
  | cons c before ih =>
    rw [List.cons_append, splitAtChar, splitAtChar, ih]
    split_ifs
    · rfl
    · obtain ⟨part, more, hparts⟩ := List.exists_cons_of_ne_nil (splitAtChar_ne_nil '\n' before)
      rw [hparts]
      rfl

/-- The first line reaches up to the first line feed. -/
theorem head?_lines (text : List Char) :
    (lines text).head? = some (text.takeWhile (· != '\n')) := by
  unfold lines
  induction text with
  | nil => rfl
  | cons c text ih =>
    obtain ⟨part, more, hparts⟩ := List.exists_cons_of_ne_nil (splitAtChar_ne_nil '\n' text)
    have hpart : part = text.takeWhile (· != '\n') := by
      simpa [hparts] using ih
    by_cases hc : c = '\n'
    · simp [splitAtChar, hc]
    · simp [splitAtChar, hc, hparts, hpart, extendFirst]

/-- **The line that a place is on.** -/
theorem getElem?_lines (before rest : List Char) :
    (lines (before ++ rest))[before.count '\n']? =
      some (lastLine before ++ rest.takeWhile (· != '\n')) := by
  have hnewline := newline_notMem_lastLine before
  have hfirst : (lines (lastLine before ++ rest)).head? =
      some (lastLine before ++ rest.takeWhile (· != '\n')) := by
    rw [head?_lines, List.takeWhile_append_of_pos]
    intro c hc
    simpa using ne_of_mem_of_not_mem hc hnewline
  obtain hone | ⟨first, hbefore⟩ := exists_lastLine before
  · rw [hone] at hnewline hfirst
    rw [List.count_eq_zero_of_not_mem hnewline, ← List.head?_eq_getElem?, hfirst, hone]
  · have hcount : before.count '\n' = (lines first).length := by
      rw [hbefore, List.count_append, List.count_cons_self, length_lines,
        List.count_eq_zero_of_not_mem hnewline]
    have htext : before ++ rest = first ++ '\n' :: (lastLine before ++ rest) := by
      rw [← List.cons_append, ← List.append_assoc, ← hbefore]
    rw [htext, lines_append, hcount, List.getElem?_append_right le_rfl, Nat.sub_self,
      ← List.head?_eq_getElem?, hfirst]

theorem lineAfter_le_length_lines (before rest : List Char) :
    lineAfter before ≤ (lines (before ++ rest)).length := by
  rw [lineAfter, length_lines, List.count_append]
  omega

end StackScript.Text
