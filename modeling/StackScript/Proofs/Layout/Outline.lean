import StackScript.Proofs.Layout.Marks

/-!
# The outline of a text

Every text, also one with brackets or quotes that are never closed, is a row of outermost objects
with other text between them, and a rest in which no object is closed. What the layout does to a
text is done to the objects of this outline one by one.

## Main definitions

* `Layout.IsGap`, `Layout.IsBody`: what stands between objects, and inside one.
* `Layout.Outline`: texts as rows of objects.
* `Layout.bodies`: the texts inside the outermost objects.
* `Layout.replaceObjects`: a text with its outermost objects replaced.

## Main results

* `Layout.outline`: every text has an outline.
* `Layout.replaceObjects_object`, `Layout.bodies_object`: the objects are those of the outline.
-/

namespace StackScript.Layout

open Text

variable {gap inside rest text : List Char}

/-- A text that stands before an object. -/
structure IsGap (gap : List Char) : Prop where
  closed : Closed gap
  brace : '{' ∉ code gap

/-- A text that stands inside an object: the brace that has been opened before it is still open, and
no other one is. -/
structure IsBody (inside : List Char) : Prop where
  closed : Closed inside
  level : level 1 (code inside) = some 1

/-- Texts as rows of objects, each of them after a gap, and a rest without objects. -/
inductive Outline : List Char → Prop
  | rest {text : List Char} (h : objectSpans text = []) : Outline text
  | object {gap inside rest : List Char} (hg : IsGap gap) (hi : IsBody inside) (h : Outline rest) :
      Outline (gap ++ '{' :: (inside ++ '}' :: rest))

/-! ### Spans -/

/-- Outside objects the scan passes over what has no opening brace. -/
theorem spansFrom_of_notMem {marks : List (Char × Bool)} (h : '{' ∉ unquoted marks)
    (index start : Nat) (more : List (Char × Bool)) :
    spansFrom index 0 start (marks ++ more) = spansFrom (index + marks.length) 0 start more := by
  induction marks generalizing index with
  | nil => rfl
  | cons m marks ih =>
    obtain ⟨c, _ | _⟩ := m
    · rw [unquoted_cons_false, List.mem_cons, not_or] at h
      rw [List.cons_append, spansFrom, if_neg Bool.false_ne_true,
        if_neg (by simpa using Ne.symm h.1), if_neg (by simp), ih h.2, List.length_cons]
      congr 1
      omega
    · rw [List.cons_append, spansFrom, if_pos rfl, ih h, List.length_cons]
      congr 1
      omega

/-- Inside an object the scan passes over what leaves it open. -/
theorem spansFrom_of_level {depth final : Nat} (hdepth : 0 < depth) {marks : List (Char × Bool)}
    (h : level depth (unquoted marks) = some final) (index start : Nat)
    (more : List (Char × Bool)) :
    spansFrom index depth start (marks ++ more) =
      spansFrom (index + marks.length) final start more := by
  induction marks generalizing index depth with
  | nil =>
    obtain rfl := Option.some.inj h
    rfl
  | cons m marks ih =>
    have hindex : index + (m :: marks).length = index + 1 + marks.length := by
      rw [List.length_cons]
      omega
    obtain ⟨c, _ | _⟩ := m
    · rw [unquoted_cons_false, level] at h
      rw [List.cons_append, spansFrom, if_neg Bool.false_ne_true, hindex]
      split_ifs at h with hopen hclose hmore
      · rw [if_pos (by simpa using hopen), if_neg hdepth.ne', ih (by omega) h]
      · rw [if_neg (by simpa using hopen), if_pos (by simp [hclose, hdepth]), if_neg (by omega),
          ih (by omega) h]
      · rw [if_neg (by simpa using hopen), if_neg (by simp [hclose]), ih hdepth h]
    · rw [List.cons_append, spansFrom, if_pos rfl, ih hdepth h, hindex]

/-- The spans of a text that stands further on. Outside objects the start of the last one does not
matter. -/
theorem spansFrom_add {index depth start start' : Nat} (n : Nat)
    (hstart : depth ≠ 0 → start' = start + n) (marks : List (Char × Bool)) :
    spansFrom (index + n) depth start' marks =
      (spansFrom index depth start marks).map fun span => (span.1 + n, span.2 + n) := by
  induction marks generalizing index depth start start' with
  | nil => rfl
  | cons m marks ih =>
    rw [spansFrom, spansFrom, Nat.add_right_comm]
    split_ifs with hquoted hopen hout hclose hlast
    · exact ih hstart
    · exact ih fun _ => rfl
    · exact ih fun _ => hstart hout
    · rw [List.map_cons, hstart (by omega), ih (by simp)]
    · exact ih fun _ => hstart (by simp at hclose; omega)
    · exact ih hstart

/-- The first span is that of the first object. -/
theorem objectSpans_object (hg : IsGap gap) (hi : IsBody inside) (rest : List Char) :
    objectSpans (gap ++ '{' :: (inside ++ '}' :: rest)) =
      (gap.length, gap.length + (inside.length + 2)) ::
        (objectSpans rest).map fun span => (span.1 + (gap.length + (inside.length + 2)),
          span.2 + (gap.length + (inside.length + 2))) := by
  have hmark : mark (gap ++ '{' :: (inside ++ '}' :: rest)) =
      mark gap ++ ('{', false) :: (mark inside ++ ('}', false) :: mark rest) := by
    rw [hg.closed.mark_append, mark_cons_of_isQuote rfl, hi.closed.mark_append,
      mark_cons_of_isQuote rfl]
  have hindex :
      0 + gap.length + 1 + inside.length + 1 = 0 + (gap.length + (inside.length + 2)) := by
    omega
  calc objectSpans (gap ++ '{' :: (inside ++ '}' :: rest))
    _ = spansFrom (0 + gap.length + 1) 1 (0 + gap.length)
          (mark inside ++ ('}', false) :: mark rest) := by
      rw [objectSpans, hmark, spansFrom_of_notMem hg.brace, length_mark]
      rfl
    _ = (0 + gap.length, 0 + gap.length + 1 + inside.length + 1) ::
          spansFrom (0 + gap.length + 1 + inside.length + 1) 0 (0 + gap.length) (mark rest) := by
      rw [spansFrom_of_level Nat.one_pos hi.level, length_mark]
      rfl
    _ = _ := by
      rw [hindex, spansFrom_add _ (fun h => absurd rfl h), Nat.zero_add, Nat.zero_add]
      rfl

/-! ### Replaced objects -/

/-- A text with its outermost objects replaced. -/
def replaceObjects (f : List Char → List Char) (text : List Char) : List Char :=
  mapSpans f 0 text (objectSpans text)

/-- The texts inside the outermost objects of a text. -/
def bodies (text : List Char) : List (List Char) :=
  (objectSpans text).map fun (start, stop) => (text.drop (start + 1)).take (stop - start - 2)

theorem mapSpans_add (f : List Char → List Char) (index n : Nat) (text : List Char)
    (spans : List (Nat × Nat)) :
    mapSpans f (index + n) text (spans.map fun span => (span.1 + n, span.2 + n)) =
      mapSpans f index text spans := by
  induction spans generalizing index text with
  | nil => rfl
  | cons span spans ih =>
    rw [List.map_cons, mapSpans, mapSpans, ih, Nat.add_sub_add_right, Nat.add_sub_add_right,
      Nat.add_sub_add_right]

theorem replaceObjects_rest {f : List Char → List Char} (h : objectSpans text = []) :
    replaceObjects f text = text := by
  rw [replaceObjects, h]
  rfl

theorem bodies_rest (h : objectSpans text = []) : bodies text = [] := by
  rw [bodies, h]
  rfl

theorem replaceObjects_object (hg : IsGap gap) (hi : IsBody inside) (f : List Char → List Char)
    (rest : List Char) :
    replaceObjects f (gap ++ '{' :: (inside ++ '}' :: rest)) =
      gap ++ f ('{' :: (inside ++ ['}'])) ++ replaceObjects f rest := by
  have hobject : ('{' :: (inside ++ '}' :: rest)).take (inside.length + 2) =
      '{' :: (inside ++ ['}']) := by
    simp [List.take_length_add_append]
  have hrest : ('{' :: (inside ++ '}' :: rest)).drop (inside.length + 2) = rest := by
    simp [List.drop_length_add_append]
  have hspans := mapSpans_add f 0 (gap.length + (inside.length + 2)) rest (objectSpans rest)
  rw [Nat.zero_add] at hspans
  rw [replaceObjects, objectSpans_object hg hi, mapSpans, Nat.sub_zero, Nat.sub_zero,
    Nat.add_sub_cancel_left, List.take_left, List.drop_left, List.drop_length_add_append, hobject,
    hrest, hspans]
  rfl

theorem bodies_object (hg : IsGap gap) (hi : IsBody inside) (rest : List Char) :
    bodies (gap ++ '{' :: (inside ++ '}' :: rest)) = inside :: bodies rest := by
  have hdrop (n : Nat) :
      (gap ++ '{' :: (inside ++ '}' :: rest)).drop (n + (gap.length + (inside.length + 2))) =
        rest.drop n := by
    have hparts : gap ++ '{' :: (inside ++ '}' :: rest) =
        (gap ++ '{' :: (inside ++ ['}'])) ++ rest := by
      simp
    have hlength : gap.length + (inside.length + 2) =
        (gap ++ '{' :: (inside ++ ['}'])).length := by
      simp
    rw [hparts, hlength, Nat.add_comm, List.drop_length_add_append]
  rw [bodies, objectSpans_object hg hi, List.map_cons, List.map_map, bodies]
  congr 1
  · simp
  · refine List.map_congr_left fun span _ => ?_
    change List.take _ (List.drop (span.1 + _ + 1) _) = _
    rw [Nat.add_right_comm, hdrop, Nat.add_sub_add_right]

/-! ### Outlines -/

private theorem exists_first_brace {marks : List (Char × Bool)} (h : '{' ∈ unquoted marks) :
    ∃ before after, marks = before ++ ('{', false) :: after ∧ '{' ∉ unquoted before := by
  induction marks with
  | nil => cases h
  | cons m marks ih =>
    obtain ⟨c, _ | _⟩ := m
    · by_cases hc : c = '{'
      · obtain rfl := hc
        exact ⟨[], marks, rfl, List.not_mem_nil⟩
      · rw [unquoted_cons_false, List.mem_cons] at h
        obtain ⟨before, after, rfl, hbefore⟩ := ih (h.resolve_left (Ne.symm hc))
        refine ⟨(c, false) :: before, after, rfl, ?_⟩
        rw [unquoted_cons_false, List.mem_cons, not_or]
        exact ⟨Ne.symm hc, hbefore⟩
    · obtain ⟨before, after, rfl, hbefore⟩ := ih h
      exact ⟨(c, true) :: before, after, rfl, hbefore⟩

/-- Without an opening brace there are no objects. -/
theorem objectSpans_of_notMem (h : '{' ∉ code text) : objectSpans text = [] := by
  have hpass := spansFrom_of_notMem h 0 0 []
  rwa [List.append_nil] at hpass

/-- An object that is never closed is none, and hides those in it. -/
private theorem objectSpans_of_level (hg : IsGap gap) {final : Nat}
    (h : level 1 (code rest) = some final) : objectSpans (gap ++ '{' :: rest) = [] := by
  have hpass := spansFrom_of_level Nat.one_pos h (0 + gap.length + 1) (0 + gap.length) []
  rw [List.append_nil] at hpass
  rw [objectSpans, hg.closed.mark_append, spansFrom_of_notMem hg.brace, length_mark,
    mark_cons_of_isQuote rfl]
  exact hpass

/-- Every text has an outline. -/
theorem outline (text : List Char) : Outline text := by
  induction hn : text.length using Nat.strong_induction_on generalizing text with
  | _ n ih =>
    by_cases hbrace : '{' ∈ code text
    · obtain ⟨before, after, hmark, hbefore⟩ := exists_first_brace hbrace
      obtain ⟨gap, rest, rfl, rfl, rfl, hclosed, -⟩ := exists_of_mark_eq hmark
      have hg : IsGap gap := ⟨hclosed, hbefore⟩
      cases hlevel : level 1 (code rest) with
      | some final => exact .rest (objectSpans_of_level hg hlevel)
      | none =>
        obtain ⟨before, after, hmark, hlevel⟩ := exists_of_level_eq_none Nat.one_pos hlevel
        obtain ⟨inside, rest, rfl, rfl, rfl, hclosed, -⟩ := exists_of_mark_eq hmark
        have hlength : rest.length < n := by
          simp at hn
          omega
        exact .object hg ⟨hclosed, hlevel⟩ (ih _ hlength rest rfl)
    · exact .rest (objectSpans_of_notMem hbrace)

theorem isBody_of_mem_bodies (h : inside ∈ bodies text) : IsBody inside := by
  induction outline text with
  | rest hspans =>
    rw [bodies_rest hspans] at h
    cases h
  | object hg hi _ ih =>
    rw [bodies_object hg hi, List.mem_cons] at h
    obtain rfl | h := h
    · exact hi
    · exact ih h

theorem length_of_mem_bodies (h : inside ∈ bodies text) : inside.length < text.length := by
  induction outline text with
  | rest hspans =>
    rw [bodies_rest hspans] at h
    cases h
  | object hg hi _ ih =>
    rw [bodies_object hg hi, List.mem_cons] at h
    obtain rfl | h := h
    · simp
      omega
    · have := ih h
      simp
      omega

end StackScript.Layout
