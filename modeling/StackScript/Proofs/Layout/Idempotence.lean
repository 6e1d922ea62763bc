import StackScript.Proofs.Layout.Preservation
import StackScript.Proofs.Text.Split

/-!
# The layout of a layout

To lay out a text that is already laid out changes nothing, with one exception: an object that holds
only commas and blanks has no properties, and is first written with blanks alone between its braces.
The second layout removes these. So the layout of a text is stable exactly if it meets no such
object, and the second layout always is.

## Main definitions

* `Layout.HoldsBare`: texts with such an object in a place that the layout reaches.

## Main results

* `Layout.layoutObjects_layoutObjects_eq_iff`: the texts whose layout is stable.
* `Layout.not_holdsBare_layoutObjects`: a layout holds no such object.
* `Layout.layout_settles`: the same of scripts.
-/

namespace StackScript.Layout

open Text

variable {indent depth : Int} {inside text : List Char} {properties : List Property}

/-- Texts with an outermost object that is not empty but has no properties, or with such a text as
the value of a property. Objects with an escaped line feed in a value are not looked into. -/
inductive HoldsBare : List Char → Prop
  | bare {text inside : List Char} (hi : inside ∈ bodies text) (hc : trim inside ≠ [])
      (hs : splitProperties (trim inside) = some []) : HoldsBare text
  | value {text inside : List Char} {properties : List Property} {p : Property}
      (hi : inside ∈ bodies text) (hs : splitProperties (trim inside) = some properties)
      (hb : ∀ p ∈ properties, holdsEscapedBreak p.2 = false) (hp : p ∈ properties)
      (h : HoldsBare p.2) : HoldsBare text

theorem holdsBare_iff : HoldsBare text ↔ ∃ inside ∈ bodies text, ∃ properties,
    Relaid inside properties ∧ (properties = [] ∨ ∃ p ∈ properties, HoldsBare p.2) := by
  have hdivides {inside : List Char} (hi : inside ∈ bodies text) {properties : List Property} :
      splitProperties (trim inside) = some properties ↔ Divides inside properties := by
    have hclosed := (isBody_of_mem_bodies hi).closed
    rw [splitProperties_trim hclosed, splitProperties_eq_some_iff hclosed]
  constructor
  · intro h
    cases h with
    | @bare _ inside hi hc hs =>
      exact ⟨inside, hi, [], ⟨hc, (hdivides hi).1 hs, by simp⟩, .inl rfl⟩
    | @value _ inside properties p hi hs hb hp h =>
      have hcontent : trim inside ≠ [] := by
        intro hblank
        rw [hblank] at hs
        obtain rfl := Option.some.inj hs
        cases hp
      exact ⟨inside, hi, properties, ⟨hcontent, (hdivides hi).1 hs, hb⟩, .inr ⟨p, hp, h⟩⟩
  · rintro ⟨inside, hi, properties, ⟨hc, hd, hb⟩, rfl | ⟨p, hp, h⟩⟩
    · exact .bare hi hc ((hdivides hi).2 hd)
    · exact .value hi ((hdivides hi).2 hd) hb hp h

/-! ### Objects again -/

/-- The objects of a layout are the layouts of the objects. -/
theorem bodies_layoutObjects (indent depth : Int) (text : List Char) :
    bodies (layoutObjects indent depth text) = (bodies text).map (layoutBody indent depth) := by
  induction outline text with
  | rest h =>
    rw [layoutObjects_rest h, bodies_rest h]
    rfl
  | object hg hi _ ih =>
    rw [layoutObjects_object hg hi, bodies_object hg (isBody_layoutBody hi), bodies_object hg hi,
      ih]
    rfl

/-- The layout is stable if the layouts of all bodies are. -/
theorem layoutObjects_layoutObjects_eq_iff_bodies :
    layoutObjects indent depth (layoutObjects indent depth text) = layoutObjects indent depth text ↔
      ∀ inside ∈ bodies text, layoutBody indent depth (layoutBody indent depth inside) =
        layoutBody indent depth inside := by
  constructor
  · intro h
    have hbodies := congrArg bodies h
    rw [bodies_layoutObjects, bodies_layoutObjects, List.map_map] at hbodies
    exact List.map_inj_left.1 hbodies
  · intro h
    induction outline text with
    | rest hspans => rw [layoutObjects_rest hspans, layoutObjects_rest hspans]
    | object hg hi _ ih =>
      rw [bodies_object hg hi, List.forall_mem_cons] at h
      rw [layoutObjects_object hg hi, layoutObjects_object hg (isBody_layoutBody hi), h.1, ih h.2]

/-! ### Properties again -/

theorem holdsEscapedBreak_eq_false_iff : holdsEscapedBreak text = false ↔
    text.IsChain fun c d => ¬ (c = '\\' ∧ d = 'n') := by
  induction text with
  | nil => simp [holdsEscapedBreak]
  | cons c rest ih =>
    rw [holdsEscapedBreak, Bool.or_eq_false_iff, ih, List.isChain_cons]
    refine and_congr_left fun _ => ?_
    cases rest <;> simp

/-- No escaped line feed comes up. -/
theorem holdsEscapedBreak_layoutObjects (h : holdsEscapedBreak text = false) :
    holdsEscapedBreak (layoutObjects indent depth text) = false := by
  rw [holdsEscapedBreak_eq_false_iff] at h ⊢
  refine isChain_layoutObjects ?_ indent depth h
  rintro _ _ hsign ⟨rfl, rfl⟩
  revert hsign
  decide

theorem layoutObjects_eq_self_or_mem (indent depth : Int) (text : List Char) :
    layoutObjects indent depth text = text ∨ '{' ∈ layoutObjects indent depth text := by
  induction outline text with
  | rest h => exact .inl (layoutObjects_rest h)
  | object hg hi _ _ =>
    rw [layoutObjects_object hg hi]
    exact .inr (by simp)

/-- Properties stay on one line, or on one line each. -/
theorem isInline_map_layoutProperty :
    isInline (properties.map (layoutProperty indent depth)) = isInline properties := by
  cases hinline : isInline properties with
  | true => rw [map_layoutProperty_of_isInline hinline, hinline]
  | false =>
    by_cases hsame : ∀ p ∈ properties, layoutProperty indent depth p = id p
    · rw [List.map_congr_left hsame, List.map_id, hinline]
    · simp only [not_forall] at hsame
      obtain ⟨p, hp, hne⟩ := hsame
      have hvalue : layoutObjects indent (depth + 1) p.2 ≠ p.2 := fun heq =>
        hne (congrArg (p.1, ·) heq)
      have hbrace := (layoutObjects_eq_self_or_mem indent (depth + 1) p.2).resolve_left hvalue
      rw [Bool.eq_false_iff]
      exact fun h => notMem_of_isInline h (List.mem_map_of_mem hp) hbrace

/-- A body with properties has them again after the layout. -/
theorem Relaid.layout (h : Relaid inside properties) (hne : properties ≠ [])
    (indent depth : Int) :
    Relaid (layoutBody indent depth inside) (properties.map (layoutProperty indent depth)) := by
  obtain ⟨hgap, hpost⟩ := isBlank_of_mem_spacing indent depth properties
  rw [layoutBody_of_relaid h]
  refine ⟨?_, (h.divides.layout hgap hpost fun p _ => keeps indent (depth + 1) p.2).1, ?_⟩
  · rw [Ne, trim_eq_nil_iff]
    exact fun hblank => absurd (hblank ':' (colon_mem_spaced _ (by simpa using hne))) (by decide)
  · exact List.forall_mem_map.2 fun p hp => holdsEscapedBreak_layoutObjects (h.unbroken p hp)

theorem spacing_map_layoutProperty :
    spacing indent depth (properties.map (layoutProperty indent depth)) =
      spacing indent depth properties := by
  rw [spacing, isInline_map_layoutProperty]
  rfl

/-- Without properties, blanks are written between the braces. -/
theorem layoutBody_of_relaid_nil (h : Relaid inside []) :
    layoutBody indent depth inside = [' ', ' '] := layoutBody_of_relaid h

theorem layoutBody_layoutBody_ne (h : Relaid inside []) :
    layoutBody indent depth (layoutBody indent depth inside) ≠ layoutBody indent depth inside := by
  have hempty : layoutBody indent depth [' ', ' '] = [] := layoutBody_of_isBlank (by decide)
  rw [layoutBody_of_relaid_nil h, hempty]
  decide

/-- The layout of a body is stable if it has properties with stable values, or is kept. -/
theorem layoutBody_layoutBody_eq_iff (hi : IsBody inside) :
    layoutBody indent depth (layoutBody indent depth inside) = layoutBody indent depth inside ↔
      ∀ properties, Relaid inside properties → properties ≠ [] ∧
        ∀ p ∈ properties, layoutObjects indent (depth + 1) (layoutObjects indent (depth + 1) p.2) =
          layoutObjects indent (depth + 1) p.2 := by
  by_cases hblank : trim inside = []
  · have hnil : layoutBody indent depth [] = [] := layoutBody_of_isBlank rfl
    rw [layoutBody_of_isBlank hblank, hnil]
    exact iff_of_true rfl fun _ h => absurd hblank h.content
  by_cases hrelaid : ∃ properties, Relaid inside properties
  swap
  · have hkept : layoutBody indent depth inside = inside :=
      layoutBody_of_not_relaid hi hblank (not_exists.1 hrelaid)
    rw [hkept, hkept]
    exact iff_of_true rfl fun properties h => absurd ⟨properties, h⟩ hrelaid
  obtain ⟨properties, hrelaid⟩ := hrelaid
  have hall {P : List Property → Prop} : (∀ ps, Relaid inside ps → P ps) ↔ P properties :=
    ⟨fun h => h properties hrelaid, fun h ps hps => hps.unique hrelaid ▸ h⟩
  rw [hall]
  by_cases hne : properties = []
  · obtain rfl := hne
    exact iff_of_false (layoutBody_layoutBody_ne hrelaid) fun h => h.1 rfl
  have hagain := hrelaid.layout hne indent depth
  have hvalues : (properties.map (layoutProperty indent depth)).map (layoutProperty indent depth) =
      properties.map (layoutProperty indent depth) ↔
        ∀ p ∈ properties, layoutObjects indent (depth + 1) (layoutObjects indent (depth + 1) p.2) =
          layoutObjects indent (depth + 1) p.2 := by
    rw [List.map_map, List.map_inj_left]
    simp [layoutProperty]
  rw [and_iff_right hne, ← hvalues]
  constructor
  · intro h
    have htwice := hagain.layout (by simpa using hne) indent depth
    rw [h] at htwice
    exact htwice.unique hagain
  · intro h
    rw [layoutBody_of_relaid hagain, h, spacing_map_layoutProperty,
      ← layoutBody_of_relaid hrelaid]

/-! ### The layout of objects -/

/-- The texts whose layout is stable. -/
theorem layoutObjects_layoutObjects_eq_iff :
    layoutObjects indent depth (layoutObjects indent depth text) = layoutObjects indent depth text ↔
      ¬ HoldsBare text := by
  induction text using layout_induction generalizing depth with
  | step text ih =>
    rw [layoutObjects_layoutObjects_eq_iff_bodies, holdsBare_iff]
    simp only [not_exists, not_and, not_or]
    refine forall₂_congr fun inside hinside => ?_
    rw [layoutBody_layoutBody_eq_iff (isBody_of_mem_bodies hinside)]
    refine forall₂_congr fun properties hrelaid => and_congr_right fun _ => ?_
    exact forall₂_congr fun p hp => ih inside hinside properties hrelaid p hp

/-- A layout holds no object that is not empty but has no properties. -/
theorem not_holdsBare_layoutObjects (indent depth : Int) (text : List Char) :
    ¬ HoldsBare (layoutObjects indent depth text) := by
  induction text using layout_induction generalizing depth with
  | step text ih =>
    rw [holdsBare_iff, bodies_layoutObjects]
    rintro ⟨_, hmem, properties, hlayout, hbare⟩
    obtain ⟨inside, hinside, rfl⟩ := List.mem_map.1 hmem
    by_cases hblank : trim inside = []
    · rw [layoutBody_of_isBlank hblank] at hlayout
      exact hlayout.content rfl
    by_cases hrelaid : ∃ before, Relaid inside before
    · obtain ⟨before, hrelaid⟩ := hrelaid
      by_cases hne : before = []
      · obtain rfl := hne
        rw [layoutBody_of_relaid_nil hrelaid] at hlayout
        exact hlayout.content (by decide)
      obtain rfl := hlayout.unique (hrelaid.layout hne indent depth)
      obtain hnil | ⟨_, hmem, h⟩ := hbare
      · exact hne (List.map_eq_nil_iff.1 hnil)
      · obtain ⟨p, hp, rfl⟩ := List.mem_map.1 hmem
        exact ih inside hinside before hrelaid p hp (depth + 1) h
    · rw [layoutBody_of_not_relaid (isBody_of_mem_bodies hinside) hblank
        (not_exists.1 hrelaid)] at hlayout
      exact hrelaid ⟨properties, hlayout⟩

/-! ### Scripts -/

/-- The paragraphs of a layout are the layouts of the paragraphs. -/
theorem paragraphs_layout (indent : Int) (text : List Char) :
    paragraphs (layout indent text) =
      (paragraphs text).map fun part => layoutObjects indent 0 (trim part) := by
  refine splitAtPair_intercalate ?_ (List.forall_mem_map.2 fun part hpart => ⟨?_, fun c hc => ?_⟩)
  · rw [Ne, List.map_eq_nil_iff]
    exact splitAtPair_ne_nil _ _ _
  · have hchain := List.IsChain.infix (isChain_of_mem_splitAtPair hpart) (trim_isInfix part)
    refine isChain_layoutObjects ?_ indent 0 hchain
    rintro _ _ hsign ⟨rfl, rfl⟩
    revert hsign
    decide
  · rw [getLast?_layoutObjects] at hc
    rintro rfl
    exact absurd (isBlank_of_mem_getLast?_trim hc) (by decide)

/-- A layout is stable exactly if no paragraph holds an object without properties. -/
theorem layout_layout_eq_self_iff (indent : Int) (text : List Char) :
    layout indent (layout indent text) = layout indent text ↔
      ∀ part ∈ paragraphs text, ¬ HoldsBare (trim part) := by
  have hparts : layout indent (layout indent text) = layout indent text ↔
      (paragraphs text).map (fun part =>
          layoutObjects indent 0 (trim (layoutObjects indent 0 (trim part)))) =
        (paragraphs text).map fun part => layoutObjects indent 0 (trim part) := by
    constructor
    · intro h
      have hagain := congrArg paragraphs h
      rwa [paragraphs_layout, paragraphs_layout, List.map_map] at hagain
    · intro h
      rw [layout, paragraphs_layout, List.map_map, layout]
      exact congrArg _ h
  rw [hparts, List.map_inj_left]
  refine forall₂_congr fun part _ => ?_
  rw [trim_layoutObjects (trim_trim part), layoutObjects_layoutObjects_eq_iff]

/-- **The layout settles.** Whatever the text and the indentation, to lay out a layout again changes
nothing exactly if no paragraph of the text has, in a place that the layout reaches, an object that
is not empty but has no properties. A third layout never changes anything. -/
theorem layout_settles (indent : Int) (text : List Char) :
    (layout indent (layout indent text) = layout indent text ↔
        ∀ part ∈ paragraphs text, ¬ HoldsBare (trim part)) ∧
      layout indent (layout indent (layout indent text)) = layout indent (layout indent text) := by
  refine ⟨layout_layout_eq_self_iff indent text, (layout_layout_eq_self_iff indent _).2 ?_⟩
  rw [paragraphs_layout]
  refine List.forall_mem_map.2 fun part _ => ?_
  rw [trim_layoutObjects (trim_trim part)]
  exact not_holdsBare_layoutObjects indent 0 (trim part)

/-- A comma alone between braces: only blanks are left of it, and then nothing. -/
theorem layout_layout_comma_ne :
    layout 2 ['{', ',', '}'] = ['{', ' ', ' ', '}'] ∧
      layout 2 (layout 2 ['{', ',', '}']) = ['{', '}'] ∧
      layout 2 (layout 2 ['{', ',', '}']) ≠ layout 2 ['{', ',', '}'] := by
  decide

end StackScript.Layout
