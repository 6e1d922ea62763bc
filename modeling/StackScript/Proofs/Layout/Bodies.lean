import StackScript.Proofs.Layout.Division
import StackScript.Proofs.Layout.Outline

/-!
# The layout of bodies

The layout of a text keeps what stands between its outermost objects, and lays out the body of each
of them. A body is kept as it is, or it is divided into properties, which are then written one after
the other with the same spacing, on one line or on one line each.

## Main definitions

* `Layout.spaced`: properties with a given spacing.
* `Layout.layoutBody`: the layout of the text inside an object.
* `Layout.Relaid`: the bodies that are divided, with their properties.

## Main results

* `Layout.layoutObjects_object`, `Layout.layoutObjects_rest`: the layout along the outline.
* `Layout.layoutBody_of_relaid`: the layout of a body that is divided.
* `Layout.layout_induction`: induction on the objects inside objects.
-/

namespace StackScript.Layout

open Text

variable {indent depth : Int} {gap inside rest text : List Char} {properties : List Property}

/-! ### Spacing -/

/-- The text of a property. -/
def propertyText (p : Property) : List Char := p.1 ++ ':' :: ' ' :: p.2

/-- Properties with a gap before each of them and after the last. -/
def spaced (gaps : List Char × List Char) (properties : List Property) : List Char :=
  gaps.1 ++ List.intercalate (',' :: gaps.1) (properties.map propertyText) ++ gaps.2

/-- The gaps of properties that stand on one line, or on one line each. -/
def spacing (indent depth : Int) (properties : List Property) : List Char × List Char :=
  if isInline properties then ([' '], [' '])
  else ('\n' :: blanks (indent * (depth + 1)), '\n' :: blanks (indent * depth))

theorem spaced_nil (gaps : List Char × List Char) : spaced gaps [] = gaps.1 ++ gaps.2 := by
  simp [spaced]

theorem spaced_singleton (gaps : List Char × List Char) (p : Property) :
    spaced gaps [p] = gaps.1 ++ p.1 ++ ':' :: ' ' :: (p.2 ++ gaps.2) := by
  simp [spaced, propertyText]

theorem spaced_cons_cons (gaps : List Char × List Char) (p q : Property) (more : List Property) :
    spaced gaps (p :: q :: more) =
      gaps.1 ++ p.1 ++ ':' :: ' ' :: (p.2 ++ ',' :: spaced gaps (q :: more)) := by
  simp [spaced, propertyText, List.intercalate_cons_cons]

theorem colon_mem_spaced (gaps : List Char × List Char) (hne : properties ≠ []) :
    ':' ∈ spaced gaps properties := by
  obtain ⟨p, more, rfl⟩ := List.exists_cons_of_ne_nil hne
  cases more with
  | nil => simp [spaced_singleton]
  | cons q more => simp [spaced_cons_cons]

/-- A property, with the layout of its value. -/
def layoutProperty (indent depth : Int) (p : Property) : Property :=
  (p.1, layoutObjects indent (depth + 1) p.2)

/-- The layout of the text inside an object. -/
def layoutBody (indent depth : Int) (inside : List Char) : List Char :=
  if trim inside = [] then []
  else
    match splitProperties inside with
    | none => inside
    | some properties =>
      if properties.any fun p => holdsEscapedBreak p.2 then inside
      else spaced (spacing indent depth properties) (properties.map (layoutProperty indent depth))

/-! ### Levels -/

theorem replaceObjects_congr {f g : List Char → List Char}
    (h : ∀ inside ∈ bodies text,
      f ('{' :: (inside ++ ['}'])) = g ('{' :: (inside ++ ['}']))) :
    replaceObjects f text = replaceObjects g text := by
  induction outline text with
  | rest hspans => rw [replaceObjects_rest hspans, replaceObjects_rest hspans]
  | object hg hi _ ih =>
    rw [bodies_object hg hi, List.forall_mem_cons] at h
    rw [replaceObjects_object hg hi, replaceObjects_object hg hi, h.1, ih h.2]

/-- The body of an object with its braces. -/
private theorem dropLast_braces (inside : List Char) :
    (('{' :: (inside ++ ['}'])).drop 1).dropLast = inside := by
  simp

/-- The layout of an object depends on that of its values only. -/
private theorem layoutObject_congr (hi : IsBody inside) {inner inner' : List Char → List Char}
    (h : ∀ value, value.length ≤ inside.length → inner value = inner' value) :
    layoutObject indent depth inner ('{' :: (inside ++ ['}'])) =
      layoutObject indent depth inner' ('{' :: (inside ++ ['}'])) := by
  unfold layoutObject
  rw [dropLast_braces]
  dsimp only
  rw [splitProperties_trim hi.closed]
  cases hsplit : splitProperties inside with
  | none => rfl
  | some properties =>
    have hdivides := divides_of_splitProperties hi.closed hsplit
    have hlines : (properties.map fun p =>
          blanks (indent * (depth + 1)) ++ p.1 ++ ':' :: ' ' :: inner p.2) =
        properties.map fun p =>
          blanks (indent * (depth + 1)) ++ p.1 ++ ':' :: ' ' :: inner' p.2 :=
      List.map_congr_left fun p hp => by rw [h p.2 (hdivides.isInfix hp).2.length_le]
    dsimp only
    rw [hlines]

/-- As soon as there are enough of them, the number of levels does not matter. -/
private theorem layoutLevels_eq {levels levels' : Nat} (h : text.length ≤ levels)
    (h' : text.length ≤ levels') :
    layoutLevels indent levels depth text = layoutLevels indent levels' depth text := by
  have hnil (levels : Nat) : layoutLevels indent levels depth [] = [] := by
    cases levels <;> rfl
  induction levels generalizing levels' depth text with
  | zero =>
    obtain rfl := List.eq_nil_of_length_eq_zero (Nat.le_zero.1 h)
    rw [hnil, hnil]
  | succ levels ih =>
    cases levels' with
    | zero =>
      obtain rfl := List.eq_nil_of_length_eq_zero (Nat.le_zero.1 h')
      rw [hnil, hnil]
    | succ levels' =>
      refine replaceObjects_congr fun inside hinside => ?_
      have hlength := length_of_mem_bodies hinside
      exact layoutObject_congr (isBody_of_mem_bodies hinside) fun value hvalue =>
        ih (by omega) (by omega) (fun levels => by cases levels <;> rfl)

theorem layoutObjects_eq (indent depth : Int) (text : List Char) :
    layoutObjects indent depth text =
      replaceObjects (layoutObject indent depth (layoutObjects indent (depth + 1))) text := by
  rw [layoutObjects, layoutLevels_eq le_rfl (Nat.le_succ _)]
  refine replaceObjects_congr fun inside hinside => ?_
  have hlength := length_of_mem_bodies hinside
  exact layoutObject_congr (isBody_of_mem_bodies hinside) fun value hvalue =>
    layoutLevels_eq (by omega) le_rfl

/-! ### The layout along the outline -/

theorem layoutObjects_rest (h : objectSpans text = []) :
    layoutObjects indent depth text = text := by
  rw [layoutObjects_eq, replaceObjects_rest h]

theorem layoutObjects_of_notMem (h : '{' ∉ text) : layoutObjects indent depth text = text :=
  layoutObjects_rest (objectSpans_of_notMem fun hmem => h (mem_of_mem_code hmem))

/-- On one line each, the blanks of a line may be counted as part of the gap before it. -/
private theorem intercalate_lines (width : Int) {lines : List (List Char)} (hne : lines ≠ []) :
    List.intercalate [',', '\n'] (lines.map (blanks width ++ ·)) =
      blanks width ++ List.intercalate (',' :: '\n' :: blanks width) lines := by
  induction lines with
  | nil => exact absurd rfl hne
  | cons line lines ih =>
    cases lines with
    | nil => simp
    | cons line' lines =>
      rw [List.map_cons, List.map_cons, List.intercalate_cons_cons, ← List.map_cons, ih (by simp),
        List.intercalate_cons_cons]
      simp

theorem notMem_of_isInline (h : isInline properties = true) {p : Property} (hp : p ∈ properties) :
    '{' ∉ p.2 := by
  rw [isInline, Bool.and_eq_true, List.all_eq_true] at h
  have hvalue := h.2 p hp
  simp only [Bool.and_eq_true, Bool.not_eq_true', List.contains_eq_mem,
    decide_eq_false_iff_not] at hvalue
  exact hvalue.1.1

/-- Values on one line hold no objects. -/
theorem map_layoutProperty_of_isInline (h : isInline properties = true) :
    properties.map (layoutProperty indent depth) = properties := by
  have hsame : properties.map (layoutProperty indent depth) = properties.map id :=
    List.map_congr_left fun p hp =>
      congrArg (p.1, ·) (layoutObjects_of_notMem (notMem_of_isInline h hp))
  rw [hsame, List.map_id]

private theorem layoutObject_braces (hi : IsBody inside) :
    layoutObject indent depth (layoutObjects indent (depth + 1)) ('{' :: (inside ++ ['}'])) =
      '{' :: (layoutBody indent depth inside ++ ['}']) := by
  unfold layoutObject layoutBody
  rw [dropLast_braces]
  dsimp only
  rw [splitProperties_trim hi.closed]
  by_cases hempty : trim inside = []
  · rw [hempty]
    rfl
  rw [if_neg (by simpa using hempty), if_neg hempty]
  cases splitProperties inside with
  | none => rfl
  | some properties =>
    dsimp only
    split_ifs with hbreak hinline
    · rfl
    · have hline : oneLine properties = List.intercalate [',', ' '] (properties.map propertyText) :=
        rfl
      rw [map_layoutProperty_of_isInline hinline, spacing, if_pos hinline, hline]
      simp [spaced]
    · have hne : properties ≠ [] := by
        rintro rfl
        exact hinline (by decide)
      have hlines : (properties.map fun p => blanks (indent * (depth + 1)) ++ p.1 ++
            ':' :: ' ' :: layoutObjects indent (depth + 1) p.2) =
          ((properties.map (layoutProperty indent depth)).map propertyText).map
            (blanks (indent * (depth + 1)) ++ ·) := by
        simp [layoutProperty, propertyText]
      rw [spacing, if_neg hinline, hlines, intercalate_lines _ (by simpa using hne)]
      simp [spaced]

theorem layoutObjects_object {gap inside : List Char} (hg : IsGap gap) (hi : IsBody inside)
    (rest : List Char) :
    layoutObjects indent depth (gap ++ '{' :: (inside ++ '}' :: rest)) =
      gap ++ '{' :: (layoutBody indent depth inside ++
        '}' :: layoutObjects indent depth rest) := by
  rw [layoutObjects_eq, replaceObjects_object hg hi, ← layoutObjects_eq, layoutObject_braces hi]
  simp

/-! ### The layout of one body -/

/-- The bodies that are divided into properties and then written anew. -/
structure Relaid (inside : List Char) (properties : List Property) : Prop where
  content : trim inside ≠ []
  divides : Divides inside properties
  unbroken : ∀ p ∈ properties, holdsEscapedBreak p.2 = false

theorem layoutBody_of_isBlank (h : trim inside = []) : layoutBody indent depth inside = [] := by
  rw [layoutBody, if_pos h]

theorem layoutBody_of_relaid (h : Relaid inside properties) :
    layoutBody indent depth inside =
      spaced (spacing indent depth properties)
        (properties.map (layoutProperty indent depth)) := by
  have hbreak : ¬ (properties.any fun p => holdsEscapedBreak p.2) = true := by
    rw [List.any_eq_true]
    rintro ⟨p, hp, hbreak⟩
    exact Bool.false_ne_true ((h.unbroken p hp).symm.trans hbreak)
  rw [layoutBody, if_neg h.content, h.divides.splitProperties_eq]
  exact if_neg hbreak

/-- A body that cannot be divided, or that holds an escaped line feed, is kept. -/
theorem layoutBody_of_not_relaid (hi : IsBody inside) (hne : trim inside ≠ [])
    (h : ∀ properties, ¬ Relaid inside properties) : layoutBody indent depth inside = inside := by
  rw [layoutBody, if_neg hne]
  cases hsplit : splitProperties inside with
  | none => rfl
  | some properties =>
    have hbreak : (properties.any fun p => holdsEscapedBreak p.2) = true := by
      by_contra hbreak
      rw [List.any_eq_true, not_exists] at hbreak
      refine h properties ⟨hne, divides_of_splitProperties hi.closed hsplit, fun p hp => ?_⟩
      exact Bool.eq_false_iff.2 fun hp' => hbreak p ⟨hp, hp'⟩
    exact if_pos hbreak

theorem Relaid.unique {properties' : List Property} (h : Relaid inside properties)
    (h' : Relaid inside properties') : properties = properties' :=
  Option.some.inj (h.divides.splitProperties_eq.symm.trans h'.divides.splitProperties_eq)

/-- Induction on the values inside the objects of a text. -/
theorem layout_induction {motive : List Char → Prop}
    (step : ∀ text, (∀ inside ∈ bodies text, ∀ properties, Relaid inside properties →
      ∀ p ∈ properties, motive p.2) → motive text) (text : List Char) : motive text := by
  induction hn : text.length using Nat.strong_induction_on generalizing text with
  | _ n ih =>
    refine step text fun inside hinside properties h p hp => ih p.2.length ?_ p.2 rfl
    have hvalue := (h.divides.isInfix hp).2.length_le
    have hbody := length_of_mem_bodies hinside
    omega

end StackScript.Layout
