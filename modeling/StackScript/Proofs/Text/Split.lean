import StackScript.Text.Split
import Mathlib.Data.List.Chain

/-!
# Parts of a text

The parts of a text with the separators between them make up the text again, and parts that hold no
separator are found again in the text they make up.

## Main definitions

* `Text.IsPart`: texts in which no separator of two characters is found, whatever follows.

## Main results

* `Text.intercalate_splitAtChar`, `Text.intercalate_splitAtPair`.
* `Text.splitAtPair_intercalate`.
* `Text.isChain_of_mem_splitAtPair`: no part holds a separator.
-/

namespace StackScript.Text

theorem extendFirst_ne_nil (c : Char) (parts : List (List Char)) : extendFirst c parts ≠ [] := by
  cases parts <;> simp [extendFirst]

theorem splitAtChar_ne_nil (separator : Char) (text : List Char) :
    splitAtChar separator text ≠ [] := by
  cases text with
  | nil => simp [splitAtChar]
  | cons c rest =>
    rw [splitAtChar]
    split
    · simp
    · exact extendFirst_ne_nil _ _

theorem splitAtPair_ne_nil (first second : Char) (text : List Char) :
    splitAtPair first second text ≠ [] := by
  unfold splitAtPair
  split
  · simp
  · simp
  · split
    · simp
    · exact extendFirst_ne_nil _ _

private theorem intercalate_extendFirst (separator : List Char) (c : Char)
    {parts : List (List Char)} (h : parts ≠ []) :
    List.intercalate separator (extendFirst c parts) = c :: List.intercalate separator parts := by
  cases parts with
  | nil => exact absurd rfl h
  | cons part more => cases more <;> simp [extendFirst]

theorem intercalate_splitAtChar (separator : Char) (text : List Char) :
    List.intercalate [separator] (splitAtChar separator text) = text := by
  induction text with
  | nil => rfl
  | cons c rest ih =>
    rw [splitAtChar]
    split
    next hc =>
      rw [List.intercalate_cons_of_ne_nil (splitAtChar_ne_nil _ _), ih, beq_iff_eq.1 hc]
      rfl
    · rw [intercalate_extendFirst _ _ (splitAtChar_ne_nil _ _), ih]

theorem splitAtChar_of_notMem {separator : Char} {text : List Char} (h : separator ∉ text) :
    splitAtChar separator text = [text] := by
  induction text with
  | nil => rfl
  | cons c text ih =>
    rw [List.mem_cons, not_or] at h
    rw [splitAtChar, if_neg (by simpa using Ne.symm h.1), ih h.2]
    rfl

theorem intercalate_splitAtPair (first second : Char) (text : List Char) :
    List.intercalate [first, second] (splitAtPair first second text) = text := by
  fun_induction splitAtPair first second text with
  | case1 => rfl
  | case2 c => rfl
  | case3 c d rest h ih =>
    rw [Bool.and_eq_true, beq_iff_eq, beq_iff_eq] at h
    rw [List.intercalate_cons_of_ne_nil (splitAtPair_ne_nil _ _ _), ih, h.1, h.2]
    rfl
  | case4 c d rest h ih => rw [intercalate_extendFirst _ _ (splitAtPair_ne_nil _ _ _), ih]

/-- A text in which a separator of two characters neither stands nor starts at the end. -/
structure IsPart (first second : Char) (part : List Char) : Prop where
  chain : part.IsChain fun c d => ¬ (c = first ∧ d = second)
  last : ∀ c ∈ part.getLast?, c ≠ first

section Pairs

variable {first second : Char} {part text : List Char}

theorem IsPart.of_notMem (h : first ∉ part) : IsPart first second part where
  chain := by
    induction part with
    | nil => exact .nil
    | cons c part ih =>
      rw [List.mem_cons, not_or] at h
      rw [List.isChain_cons]
      exact ⟨fun _ _ hpair => h.1 hpair.1.symm, ih h.2⟩
  last c hc := by
    rintro rfl
    exact h (List.mem_of_mem_getLast? hc)

/-- One step over two characters that are not a separator. -/
private theorem splitAtPair_cons_cons {c d : Char} (h : ¬ (c = first ∧ d = second))
    (text : List Char) :
    splitAtPair first second (c :: d :: text) =
      extendFirst c (splitAtPair first second (d :: text)) := by
  rw [splitAtPair, if_neg (by simpa using h)]

theorem splitAtPair_of_isChain (h : part.IsChain fun c d => ¬ (c = first ∧ d = second)) :
    splitAtPair first second part = [part] := by
  induction part with
  | nil => rfl
  | cons c part ih =>
    cases part with
    | nil => rfl
    | cons d part =>
      rw [List.isChain_cons_cons] at h
      rw [splitAtPair_cons_cons h.1, ih h.2]
      rfl

theorem splitAtPair_append (h : IsPart first second part) (text : List Char) :
    splitAtPair first second (part ++ first :: second :: text) =
      part :: splitAtPair first second text := by
  induction part with
  | nil => rw [List.nil_append, splitAtPair, if_pos (by simp)]
  | cons c part ih =>
    cases part with
    | nil =>
      have hc : c ≠ first := h.last c rfl
      rw [List.singleton_append, splitAtPair_cons_cons fun hpair => hc hpair.1, splitAtPair,
        if_pos (by simp)]
      rfl
    | cons d part =>
      obtain ⟨hpair, hchain⟩ := List.isChain_cons_cons.1 h.chain
      rw [List.cons_append, List.cons_append, splitAtPair_cons_cons hpair, ← List.cons_append,
        ih ⟨hchain, h.last⟩]
      rfl

/-- Parts without a separator are found again. -/
theorem splitAtPair_intercalate {parts : List (List Char)} (hne : parts ≠ [])
    (h : ∀ part ∈ parts, IsPart first second part) :
    splitAtPair first second (List.intercalate [first, second] parts) = parts := by
  induction parts with
  | nil => exact absurd rfl hne
  | cons part parts ih =>
    rw [List.forall_mem_cons] at h
    cases parts with
    | nil =>
      rw [List.intercalate_singleton]
      exact splitAtPair_of_isChain h.1.chain
    | cons part' parts =>
      rw [List.intercalate_cons_cons, List.append_assoc, List.cons_append, List.singleton_append,
        splitAtPair_append h.1, ih (by simp) h.2]

/-- The first part is where the text starts. -/
private theorem isPrefix_of_splitAtPair {more : List (List Char)}
    (h : splitAtPair first second text = part :: more) : part <+: text := by
  have htext := intercalate_splitAtPair first second text
  rw [h] at htext
  rw [← htext]
  cases more with
  | nil => simp
  | cons part' more =>
    rw [List.intercalate_cons_cons, List.append_assoc]
    exact List.prefix_append _ _

/-- A part of a text holds no separator. -/
theorem isChain_of_mem_splitAtPair (h : part ∈ splitAtPair first second text) :
    part.IsChain fun c d => ¬ (c = first ∧ d = second) := by
  fun_induction splitAtPair first second text generalizing part with
  | case1 =>
    obtain rfl := List.mem_singleton.1 h
    exact .nil
  | case2 c =>
    obtain rfl := List.mem_singleton.1 h
    exact .singleton c
  | case3 c d rest _ ih =>
    obtain rfl | h := List.mem_cons.1 h
    · exact .nil
    · exact ih h
  | case4 c d rest hpair ih =>
    obtain ⟨start, more, hparts⟩ :=
      List.exists_cons_of_ne_nil (splitAtPair_ne_nil first second (d :: rest))
    rw [hparts] at ih h
    obtain rfl | h := List.mem_cons.1 h
    · rw [List.isChain_cons]
      refine ⟨fun e he => ?_, ih List.mem_cons_self⟩
      obtain ⟨others, hothers⟩ := isPrefix_of_splitAtPair hparts
      have hhead := congrArg List.head? hothers
      rw [List.head?_append, Option.mem_def.1 he] at hhead
      obtain rfl := Option.some.inj hhead
      simpa using hpair
    · exact ih (List.mem_cons_of_mem _ h)

end Pairs

end StackScript.Text
