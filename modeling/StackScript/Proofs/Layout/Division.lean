import StackScript.Proofs.Layout.Marks

/-!
# The division of a body into properties

The scan for properties stops at the first comma outside brackets, and before that at a colon if no
key has been read. So a body that can be divided consists of keys and values between these signs,
and of blank parts that are dropped.

## Main definitions

* `Layout.IsKey`, `Layout.IsValue`: the texts before a colon and after it.
* `Layout.Divides`: the bodies that are divided into given properties.

## Main results

* `Layout.splitProperties_eq_some_iff`: the properties found are those the body is divided into.
* `Layout.splitProperties_trim`: blanks around a body do not matter.
-/

namespace StackScript.Layout

open Text

variable {raw rawKey rawValue rest text chunk : List Char} {key : Option (List Char)}
  {depth : Int} {properties : List Property} {p : Property}

/-! ### The scan -/

/-- The signs at which the scan for properties stops. -/
def boundaries : (key : Option (List Char)) → List Char
  | none => [':', ',']
  | some _ => [',']

theorem comma_mem_boundaries (key : Option (List Char)) : ',' ∈ boundaries key := by
  cases key <;> simp [boundaries]

theorem isBlank_of_mem_boundaries (key : Option (List Char)) :
    ∀ c ∈ boundaries key, isBlank c = false := by
  cases key <;> exact forall_mem_of_all (by simp only [boundaries]; decide)

/-- Without such a sign outside brackets everything is collected. -/
theorem propertiesFrom_of_clear {marks : List (Char × Bool)}
    (h : Clear (boundaries key) depth (unquoted marks)) (chunk : List Char)
    (more : List (Char × Bool)) :
    propertiesFrom depth key chunk (marks ++ more) =
      propertiesFrom (depth + net (unquoted marks)) key ((marks.map Prod.fst).reverse ++ chunk)
        more := by
  induction marks generalizing depth chunk with
  | nil => simp [unquoted, net]
  | cons m marks ih =>
    have hchunk (c : Char) : (List.map Prod.fst marks).reverse ++ c :: chunk =
        (c :: List.map Prod.fst marks).reverse ++ chunk := by
      rw [List.reverse_cons, List.append_assoc, List.singleton_append]
    obtain ⟨c, _ | _⟩ := m
    · obtain ⟨hc, hclear⟩ := h
      rw [List.cons_append, propertiesFrom, if_neg Bool.false_ne_true, unquoted_cons_false,
        net, ← Int.add_assoc, List.map_cons, ← hchunk]
      split_ifs with hopen hclose hcolon hcomma
      · have hweight : weight c = 1 := if_pos hopen
        rw [hweight] at hclear ⊢
        exact ih hclear _
      · have hweight : weight c = -1 := (if_neg hopen).trans (if_pos hclose)
        rw [hweight] at hclear ⊢
        exact ih hclear _
      · simp only [Bool.and_eq_true, beq_iff_eq, Option.isNone_iff_eq_none] at hcolon
        obtain ⟨⟨hdepth, rfl⟩, rfl⟩ := hcolon
        exact absurd (by decide) (hc hdepth)
      · simp only [Bool.and_eq_true, beq_iff_eq] at hcomma
        obtain ⟨hdepth, rfl⟩ := hcomma
        exact absurd (comma_mem_boundaries key) (hc hdepth)
      · have hweight : weight c = 0 := (if_neg hopen).trans (if_neg hclose)
        rw [hweight, Int.add_zero] at hclear ⊢
        exact ih hclear _
    · rw [List.cons_append, propertiesFrom, if_pos rfl, unquoted_cons_true, List.map_cons, ← hchunk]
      exact ih h _

/-- The scan up to a sign. -/
theorem propertiesFrom_mark (key : Option (List Char)) (hclosed : Closed raw)
    (h : Clear (boundaries key) 0 (code raw)) (hnet : net (code raw) = 0) {c : Char}
    (hc : isQuote c = false) (chunk rest : List Char) :
    propertiesFrom 0 key chunk (mark (raw ++ c :: rest)) =
      propertiesFrom 0 key (raw.reverse ++ chunk) ((c, false) :: mark rest) := by
  rw [hclosed.mark_append, mark_cons_of_isQuote hc, propertiesFrom_of_clear h, ← code, hnet,
    map_fst_mark]
  rfl

/-- The scan up to the end. -/
theorem propertiesFrom_mark_end (key : Option (List Char))
    (h : Clear (boundaries key) 0 (code raw)) (chunk : List Char) :
    propertiesFrom 0 key chunk (mark raw) = closeChunk key (raw.reverse ++ chunk) := by
  have hcollect := propertiesFrom_of_clear h chunk []
  rwa [List.append_nil, map_fst_mark] at hcollect

theorem propertiesFrom_at_colon (chunk : List Char) (more : List (Char × Bool)) :
    propertiesFrom 0 none chunk ((':', false) :: more) =
      propertiesFrom 0 (some (trim chunk.reverse)) [] more := rfl

theorem propertiesFrom_at_comma (key : Option (List Char)) (chunk : List Char)
    (more : List (Char × Bool)) :
    propertiesFrom 0 key chunk ((',', false) :: more) =
      (closeChunk key chunk).bind fun first =>
        (propertiesFrom 0 none [] more).bind fun others => some (first ++ others) := by
  cases key <;> rfl

theorem closeChunk_some (key chunk : List Char) :
    closeChunk (some key) chunk = some [(key, trim chunk.reverse)] := rfl

theorem closeChunk_none_of_isBlank (h : ∀ c ∈ chunk, isBlank c = true) :
    closeChunk none chunk = some [] := by
  have htrim : trim chunk.reverse = [] := trim_eq_nil_iff.2 (by simpa using h)
  rw [closeChunk, htrim]
  rfl

theorem isBlank_of_closeChunk_none (h : closeChunk none chunk = some properties) :
    (∀ c ∈ chunk, isBlank c = true) ∧ properties = [] := by
  simp only [closeChunk] at h
  split_ifs at h with hempty
  have hblank := trim_eq_nil_iff.1 (List.isEmpty_iff.1 hempty)
  exact ⟨by simpa using hblank, (Option.some.inj h).symm⟩

/-! ### Keys and values -/

/-- A text that is read as a key. -/
structure IsKey (raw : List Char) : Prop where
  closed : Closed raw
  clear : Clear [':', ','] 0 (code raw)
  net : net (code raw) = 0

/-- A text that is read as a value. Brackets may be left open in the last one. -/
structure IsValue (raw : List Char) : Prop where
  closed : Closed raw
  clear : Clear [','] 0 (code raw)

theorem isKey_trim_iff : IsKey (trim raw) ↔ IsKey raw := by
  have hsigns := isBlank_of_mem_boundaries none
  constructor
  · rintro ⟨hclosed, hclear, hnet⟩
    rw [closed_trim_iff] at hclosed
    rw [net_code_trim hclosed] at hnet
    exact ⟨hclosed, (clear_code_trim_iff hclosed hsigns 0).1 hclear, hnet⟩
  · rintro ⟨hclosed, hclear, hnet⟩
    rw [← net_code_trim hclosed] at hnet
    exact ⟨closed_trim_iff.2 hclosed, (clear_code_trim_iff hclosed hsigns 0).2 hclear, hnet⟩

theorem isValue_trim_iff : IsValue (trim raw) ↔ IsValue raw := by
  have hsigns := isBlank_of_mem_boundaries (some [])
  constructor
  · rintro ⟨hclosed, hclear⟩
    rw [closed_trim_iff] at hclosed
    exact ⟨hclosed, (clear_code_trim_iff hclosed hsigns 0).1 hclear⟩
  · rintro ⟨hclosed, hclear⟩
    exact ⟨closed_trim_iff.2 hclosed, (clear_code_trim_iff hclosed hsigns 0).2 hclear⟩

/-- The bodies that are divided into given properties. -/
inductive Divides : List Char → List Property → Prop
  | blank {raw : List Char} (hr : ∀ c ∈ raw, isBlank c = true) : Divides raw []
  | skip {raw rest : List Char} {properties : List Property} (hr : ∀ c ∈ raw, isBlank c = true)
      (h : Divides rest properties) : Divides (raw ++ ',' :: rest) properties
  | last {rawKey rawValue : List Char} (hk : IsKey rawKey) (hv : IsValue rawValue) :
      Divides (rawKey ++ ':' :: rawValue) [(trim rawKey, trim rawValue)]
  | cons {rawKey rawValue rest : List Char} {properties : List Property} (hk : IsKey rawKey)
      (hv : IsValue rawValue) (hn : net (code rawValue) = 0) (h : Divides rest properties) :
      Divides (rawKey ++ ':' :: (rawValue ++ ',' :: rest))
        ((trim rawKey, trim rawValue) :: properties)

theorem Divides.splitProperties_eq (h : Divides text properties) :
    splitProperties text = some properties := by
  have hclear {raw : List Char} (hr : ∀ c ∈ raw, isBlank c = true) :
      Clear (boundaries none) 0 (code raw) := by
    rw [code_of_isBlank hr]
    exact clear_of_isBlank (isBlank_of_mem_boundaries none) hr 0
  rw [splitProperties]
  induction h with
  | blank hr =>
    rw [propertiesFrom_mark_end none (hclear hr)]
    exact closeChunk_none_of_isBlank (by simpa using hr)
  | @skip raw rest properties hr _ ih =>
    have hnet : net (code raw) = 0 := by
      rw [code_of_isBlank hr, net_of_isBlank hr]
    rw [propertiesFrom_mark none (.of_isBlank hr) (hclear hr) hnet rfl, propertiesFrom_at_comma,
      closeChunk_none_of_isBlank (by simpa using hr), ih]
    rfl
  | @last rawKey rawValue hk hv =>
    rw [propertiesFrom_mark none hk.closed hk.clear hk.net rfl, propertiesFrom_at_colon,
      propertiesFrom_mark_end (some _) hv.clear, closeChunk_some]
    simp
  | @cons rawKey rawValue rest properties hk hv hn _ ih =>
    rw [propertiesFrom_mark none hk.closed hk.clear hk.net rfl, propertiesFrom_at_colon,
      propertiesFrom_mark (some _) hv.closed hv.clear hn rfl, propertiesFrom_at_comma,
      closeChunk_some, ih]
    simp

/-- A text up to the first sign outside brackets. -/
private theorem clear_or_exists_closed (signs text : List Char) :
    Clear signs 0 (code text) ∨
      ∃ raw c rest, text = raw ++ c :: rest ∧ c ∈ signs ∧ isQuote c = false ∧ Closed raw ∧
        Clear signs 0 (code raw) ∧ net (code raw) = 0 := by
  obtain hclear | ⟨before, c, after, hmark, hc, hclear, hnet⟩ := clear_or_exists signs 0 (mark text)
  · exact .inl hclear
  · obtain ⟨raw, rest, rfl, rfl, rfl, hclosed, hquote⟩ := exists_of_mark_eq hmark
    exact .inr ⟨raw, c, rest, rfl, hc, hquote, hclosed, hclear, by rwa [Int.zero_add] at hnet⟩

/-- The properties after a comma, and those before it. -/
private theorem exists_of_propertiesFrom_at_comma {more : List (Char × Bool)}
    (h : propertiesFrom 0 key chunk ((',', false) :: more) = some properties) :
    ∃ first others, closeChunk key chunk = some first ∧
      propertiesFrom 0 none [] more = some others ∧ properties = first ++ others := by
  rw [propertiesFrom_at_comma] at h
  obtain ⟨first, hfirst, h⟩ := Option.bind_eq_some_iff.1 h
  obtain ⟨others, hothers, h⟩ := Option.bind_eq_some_iff.1 h
  exact ⟨first, others, hfirst, hothers, (Option.some.inj h).symm⟩

theorem divides_of_splitProperties (hclosed : Closed text)
    (h : splitProperties text = some properties) : Divides text properties := by
  induction hn : text.length using Nat.strong_induction_on generalizing text properties with
  | _ n ih =>
    rw [splitProperties] at h
    obtain hclear | ⟨raw, c, rest, rfl, hc, hquote, hraw, hclear, hnet⟩ :=
      clear_or_exists_closed [':', ','] text
    · rw [propertiesFrom_mark_end none hclear] at h
      obtain ⟨hblank, rfl⟩ := isBlank_of_closeChunk_none h
      exact .blank (by simpa using hblank)
    rw [propertiesFrom_mark none hraw hclear hnet hquote, List.append_nil] at h
    rw [hraw.append_iff, Closed.cons_iff hquote] at hclosed
    have hrest : rest.length < n := by
      rw [← hn, List.length_append, List.length_cons]
      omega
    simp only [List.mem_cons, List.not_mem_nil, or_false] at hc
    obtain rfl | rfl := hc
    · -- A key has been read: its value goes on to the next comma, or to the end.
      have hk : IsKey raw := ⟨hraw, hclear, hnet⟩
      rw [propertiesFrom_at_colon, List.reverse_reverse] at h
      obtain hclear | ⟨value, c, others, rfl, hc, hquote, hvalue, hclear, hnet⟩ :=
        clear_or_exists_closed [','] rest
      · rw [propertiesFrom_mark_end (some _) hclear, closeChunk_some, List.append_nil,
          List.reverse_reverse] at h
        obtain rfl := Option.some.inj h
        exact .last hk ⟨hclosed, hclear⟩
      · obtain rfl := List.mem_singleton.1 hc
        rw [propertiesFrom_mark (some _) hvalue hclear hnet hquote, List.append_nil] at h
        obtain ⟨first, properties, hfirst, hothers, rfl⟩ := exists_of_propertiesFrom_at_comma h
        rw [closeChunk_some, List.reverse_reverse] at hfirst
        obtain rfl := Option.some.inj hfirst
        rw [hvalue.append_iff, Closed.cons_iff hquote] at hclosed
        refine .cons hk ⟨hvalue, hclear⟩ hnet (ih others.length ?_ hclosed hothers rfl)
        rw [List.length_append, List.length_cons] at hrest
        omega
    · obtain ⟨first, others, hfirst, hothers, rfl⟩ := exists_of_propertiesFrom_at_comma h
      obtain ⟨hblank, rfl⟩ := isBlank_of_closeChunk_none hfirst
      exact .skip (by simpa using hblank) (ih rest.length hrest hclosed hothers rfl)

/-- The properties that are found are those that the body is divided into. -/
theorem splitProperties_eq_some_iff (hclosed : Closed text) :
    splitProperties text = some properties ↔ Divides text properties :=
  ⟨divides_of_splitProperties hclosed, Divides.splitProperties_eq⟩

namespace Divides

theorem isInfix (h : Divides text properties) (hp : p ∈ properties) :
    p.1 <:+: text ∧ p.2 <:+: text := by
  induction h with
  | blank => cases hp
  | @skip raw rest properties _ _ ih =>
    have hrest : rest <:+: raw ++ ',' :: rest := ⟨raw ++ [','], [], by simp⟩
    exact ⟨(ih hp).1.trans hrest, (ih hp).2.trans hrest⟩
  | @last rawKey rawValue _ _ =>
    obtain rfl := List.mem_singleton.1 hp
    exact ⟨(trim_isInfix _).trans ⟨[], _, rfl⟩,
      (trim_isInfix _).trans ⟨rawKey ++ [':'], [], by simp⟩⟩
  | @cons rawKey rawValue rest properties _ _ _ _ ih =>
    obtain rfl | hp := List.mem_cons.1 hp
    · exact ⟨(trim_isInfix _).trans ⟨[], _, rfl⟩,
        (trim_isInfix _).trans ⟨rawKey ++ [':'], ',' :: rest, by simp⟩⟩
    · have hrest : rest <:+: rawKey ++ ':' :: (rawValue ++ ',' :: rest) :=
        ⟨rawKey ++ ':' :: (rawValue ++ [',']), [], by simp⟩
      exact ⟨(ih hp).1.trans hrest, (ih hp).2.trans hrest⟩

theorem trim_eq (h : Divides text properties) (hp : p ∈ properties) :
    trim p.1 = p.1 ∧ trim p.2 = p.2 := by
  induction h with
  | blank => cases hp
  | skip _ _ ih => exact ih hp
  | last =>
    obtain rfl := List.mem_singleton.1 hp
    exact ⟨trim_trim _, trim_trim _⟩
  | cons _ _ _ _ ih =>
    obtain rfl | hp := List.mem_cons.1 hp
    · exact ⟨trim_trim _, trim_trim _⟩
    · exact ih hp

end Divides

/-! ### Blanks around a body -/

private theorem trim_reverse_append {before after : List Char}
    (hbefore : ∀ c ∈ before, isBlank c = true) (hafter : ∀ c ∈ after, isBlank c = true)
    (chunk : List Char) : trim (after ++ (chunk ++ before)).reverse = trim chunk.reverse := by
  rw [List.reverse_append, List.reverse_append,
    trim_append (by simpa using hbefore) (by simpa using hafter)]

private theorem closeChunk_append {before after : List Char}
    (hbefore : ∀ c ∈ before, isBlank c = true) (hafter : ∀ c ∈ after, isBlank c = true)
    (key : Option (List Char)) (chunk : List Char) :
    closeChunk key (after ++ (chunk ++ before)) = closeChunk key chunk := by
  unfold closeChunk
  rw [trim_reverse_append hbefore hafter]

/-- Blanks at the start of the chunk, which is given backwards, and at the end of the text. -/
private theorem propertiesFrom_append_isBlank {before after : List Char}
    (hbefore : ∀ c ∈ before, isBlank c = true) (hafter : ∀ c ∈ after, isBlank c = true)
    (depth : Int) (key : Option (List Char)) (chunk : List Char) (marks : List (Char × Bool)) :
    propertiesFrom depth key (chunk ++ before) (marks ++ mark after) =
      propertiesFrom depth key chunk marks := by
  have hnone : ∀ c ∈ ([] : List Char), isBlank c = true := by simp
  induction marks generalizing depth key chunk before with
  | nil =>
    have hclear : Clear (boundaries key) depth (unquoted (mark after)) := by
      rw [← code, code_of_isBlank hafter]
      exact clear_of_isBlank (isBlank_of_mem_boundaries key) hafter depth
    have hcollect := propertiesFrom_of_clear hclear (chunk ++ before) []
    rw [List.append_nil, map_fst_mark] at hcollect
    rw [List.nil_append, hcollect]
    exact closeChunk_append hbefore (by simpa using hafter) key chunk
  | cons m marks ih =>
    have hcolon := trim_reverse_append hbefore hnone chunk
    have hcomma := closeChunk_append hbefore hnone key chunk
    rw [List.nil_append] at hcolon hcomma
    rw [List.cons_append, propertiesFrom, propertiesFrom, hcolon, hcomma]
    split_ifs
    · exact ih hbefore _ _ (m.1 :: chunk)
    · exact ih hbefore _ _ (m.1 :: chunk)
    · exact ih hbefore _ _ (m.1 :: chunk)
    · exact ih hnone _ _ []
    · rw [← ih hnone depth none []]
      rfl
    · exact ih hbefore _ _ (m.1 :: chunk)

/-- Blanks around a body do not matter. -/
theorem splitProperties_trim (h : Closed text) :
    splitProperties (trim text) = splitProperties text := by
  obtain ⟨before, after, hbefore, hafter, heq, htrim, -⟩ := h.exists_trim
  have hmark : mark text = mark before ++ (mark (trim text) ++ mark after) := by
    rw [← htrim.mark_append, ← (Closed.of_isBlank hbefore).mark_append, ← List.append_assoc, ← heq]
  have hclear : Clear (boundaries none) 0 (unquoted (mark before)) := by
    rw [← code, code_of_isBlank hbefore]
    exact clear_of_isBlank (isBlank_of_mem_boundaries none) hbefore 0
  have hnet : net (unquoted (mark before)) = 0 := by
    rw [← code, code_of_isBlank hbefore, net_of_isBlank hbefore]
  have hreverse : ∀ c ∈ before.reverse, isBlank c = true := by simpa using hbefore
  have hskip := propertiesFrom_append_isBlank hreverse hafter 0 none [] (mark (trim text))
  rw [splitProperties, splitProperties, hmark, propertiesFrom_of_clear hclear, hnet, map_fst_mark,
    List.append_nil, Int.add_zero, ← hskip]
  rfl

end StackScript.Layout
