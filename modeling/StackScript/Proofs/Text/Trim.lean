import StackScript.Text.Blank
import Mathlib.Data.List.TakeWhile

/-!
# Blanks at the ends of a text

A text is what is left of it without the blanks at its ends, with blanks around that. The texts that
are left as they are have ends that are not blank.

## Main results

* `Text.exists_trim`: a text as its trimmed version with blanks around.
* `Text.trim_append`: blanks around a text do not matter.
* `Text.trim_eq_self_iff`, `Text.trim_eq_nil_iff`: the texts that are kept, and those that vanish.
-/

namespace StackScript.Text

theorem exists_trimEnd (text : List Char) :
    ∃ after, (∀ c ∈ after, isBlank c = true) ∧ text = trimEnd text ++ after := by
  refine ⟨(text.reverse.takeWhile isBlank).reverse, fun c hc => ?_, ?_⟩
  · exact List.mem_takeWhile_imp (List.mem_reverse.1 hc)
  · rw [trimEnd, ← List.reverse_append, List.takeWhile_append_dropWhile, List.reverse_reverse]

/-- A text is its trimmed version with blanks around. -/
theorem exists_trim (text : List Char) :
    ∃ before after, (∀ c ∈ before, isBlank c = true) ∧ (∀ c ∈ after, isBlank c = true) ∧
      text = before ++ trim text ++ after := by
  obtain ⟨after, hafter, heq⟩ := exists_trimEnd (trimStart text)
  refine ⟨text.takeWhile isBlank, after, fun c hc => List.mem_takeWhile_imp hc, hafter, ?_⟩
  rw [List.append_assoc, trim, ← heq, trimStart, List.takeWhile_append_dropWhile]

theorem trim_isInfix (text : List Char) : trim text <:+: text := by
  obtain ⟨before, after, -, -, heq⟩ := exists_trim text
  exact ⟨before, after, heq.symm⟩

theorem trimStart_eq_nil {text : List Char} (h : ∀ c ∈ text, isBlank c = true) :
    trimStart text = [] :=
  List.dropWhile_eq_nil_iff.2 h

theorem trim_eq_nil_iff {text : List Char} : trim text = [] ↔ ∀ c ∈ text, isBlank c = true := by
  constructor
  · intro h
    obtain ⟨before, after, hbefore, hafter, heq⟩ := exists_trim text
    rw [heq, h, List.append_nil]
    intro c hc
    exact (List.mem_append.1 hc).elim (hbefore c) (hafter c)
  · intro h
    rw [trim, trimStart_eq_nil h]
    rfl

theorem trimEnd_append {after : List Char} (h : ∀ c ∈ after, isBlank c = true)
    (text : List Char) : trimEnd (text ++ after) = trimEnd text := by
  rw [trimEnd, List.reverse_append, List.dropWhile_append_of_pos (by simpa using h)]
  rfl

/-- Blanks around a text do not matter. -/
theorem trim_append {before after : List Char} (hbefore : ∀ c ∈ before, isBlank c = true)
    (hafter : ∀ c ∈ after, isBlank c = true) (text : List Char) :
    trim (before ++ text ++ after) = trim text := by
  rw [trim, trimStart, List.append_assoc, List.dropWhile_append_of_pos hbefore,
    List.dropWhile_append]
  split_ifs with hempty
  · have hblank := List.dropWhile_eq_nil_iff.1 (List.isEmpty_iff.1 hempty)
    have htext : trim text = [] := trim_eq_nil_iff.2 hblank
    rw [htext, ← trimStart, trimStart_eq_nil hafter]
    rfl
  · exact trimEnd_append hafter _

/-- The head of a trimmed text is not blank. -/
theorem isBlank_of_mem_head?_trim {text : List Char} {c : Char} (h : c ∈ (trim text).head?) :
    isBlank c = false := by
  obtain ⟨after, -, heq⟩ := exists_trimEnd (trimStart text)
  have hhead : (trimStart text).head? = some c := by
    rw [heq, List.head?_append, ← trim, Option.mem_def.1 h]
    rfl
  have hfirst := List.head?_dropWhile_not isBlank text
  rw [← trimStart, hhead] at hfirst
  exact hfirst

/-- The last character of a trimmed text is not blank. -/
theorem isBlank_of_mem_getLast?_trim {text : List Char} {c : Char} (h : c ∈ (trim text).getLast?) :
    isBlank c = false := by
  rw [trim, trimEnd, List.getLast?_reverse] at h
  have hlast := List.head?_dropWhile_not isBlank (trimStart text).reverse
  rw [Option.mem_def.1 h] at hlast
  exact hlast

/-- A text without blanks at its ends is kept. -/
theorem trim_eq_self_iff {text : List Char} : trim text = text ↔
    (∀ c ∈ text.head?, isBlank c = false) ∧ ∀ c ∈ text.getLast?, isBlank c = false := by
  constructor
  · intro h
    rw [← h]
    exact ⟨fun _ => isBlank_of_mem_head?_trim, fun _ => isBlank_of_mem_getLast?_trim⟩
  · rintro ⟨hhead, hlast⟩
    have hstart : trimStart text = text := by
      cases text with
      | nil => rfl
      | cons c rest => exact List.dropWhile_cons_of_neg (by simp [hhead c rfl])
    have hend : text.reverse.dropWhile isBlank = text.reverse := by
      rw [← List.head?_reverse] at hlast
      cases hrev : text.reverse with
      | nil => rfl
      | cons c rest => exact List.dropWhile_cons_of_neg (by simp [hlast c (by rw [hrev]; rfl)])
    rw [trim, hstart, trimEnd, hend, List.reverse_reverse]

theorem trim_trim (text : List Char) : trim (trim text) = trim text :=
  trim_eq_self_iff.2 ⟨fun _ => isBlank_of_mem_head?_trim, fun _ => isBlank_of_mem_getLast?_trim⟩

end StackScript.Text
