import StackScript.Proofs.Layout.Bodies
import Mathlib.Data.List.Chain

/-!
# What the layout preserves

The layout moves blanks and drops commas, but only next to braces, commas and colons. So it leaves
the ends of a text as they are, closes quotes and brackets where the text does, and puts no two
characters side by side that it does not separate by such a sign. Hence the scans find the same
objects and properties again.

## Main definitions

* `Layout.Keeps`: the layout of a text closes its quotes and brackets.
* `Layout.Tolerates`: relations that hold next to signs of the layout.

## Main results

* `Layout.keeps`: this holds of every text.
* `Layout.isChain_layoutObjects`: neighbours in the layout of a text.
* `Layout.Divides.layout`: properties are found again, whatever their spacing.
* `Layout.trim_layoutObjects`: the ends of a text stay as they are.
-/

namespace StackScript.Layout

open Text

variable {indent depth : Int} {inside text : List Char} {properties : List Property}

/-! ### The ends of a text -/

theorem head?_layoutObjects (indent depth : Int) (text : List Char) :
    (layoutObjects indent depth text).head? = text.head? := by
  induction outline text with
  | rest h => rw [layoutObjects_rest h]
  | object hg hi _ _ =>
    rw [layoutObjects_object hg hi, List.head?_append, List.head?_append]
    rfl

theorem getLast?_layoutObjects (indent depth : Int) (text : List Char) :
    (layoutObjects indent depth text).getLast? = text.getLast? := by
  induction outline text with
  | rest h => rw [layoutObjects_rest h]
  | @object gap inside rest hg hi _ ih =>
    have hlast (body rest : List Char) : (gap ++ '{' :: (body ++ '}' :: rest)).getLast? =
        rest.getLast?.or (some '}') := by
      simp [List.getLast?_append, List.getLast?_cons]
    rw [layoutObjects_object hg hi, hlast, hlast, ih]

/-- A text without blanks at its ends has such a layout. -/
theorem trim_layoutObjects (h : trim text = text) :
    trim (layoutObjects indent depth text) = layoutObjects indent depth text := by
  rw [trim_eq_self_iff] at h ⊢
  rwa [head?_layoutObjects, getLast?_layoutObjects]

/-! ### Quotes and brackets -/

/-- The layout of a closed text is closed, and the scans count its brackets alike. -/
def Keeps (indent depth : Int) (text : List Char) : Prop :=
  Closed text → Closed (layoutObjects indent depth text) ∧
    Rearranged (code text) (code (layoutObjects indent depth text))

theorem Divides.closed (h : Divides text properties) : Closed text := by
  induction h with
  | blank hr => exact .of_isBlank hr
  | skip hr _ ih => exact (Closed.of_isBlank hr).append ((Closed.cons_iff rfl).2 ih)
  | last hk hv => exact hk.closed.append ((Closed.cons_iff rfl).2 hv.closed)
  | cons hk hv _ _ ih =>
    exact hk.closed.append ((Closed.cons_iff rfl).2 (hv.closed.append ((Closed.cons_iff rfl).2 ih)))

/-- Blanks around texts do not matter. -/
theorem rearranged_of_trim {a b : List Char} (ha : Closed a) (hb : Closed b)
    (h : Rearranged (code (trim a)) (code (trim b))) : Rearranged (code a) (code b) := by
  obtain ⟨before, after, hbefore, hafter, -, -, hcode⟩ := ha.exists_trim
  obtain ⟨before', after', hbefore', hafter', -, -, hcode'⟩ := hb.exists_trim
  rw [hcode, hcode']
  exact ((Rearranged.of_isBlank hbefore hbefore').append h).append (.of_isBlank hafter hafter')

section Properties

variable {gaps : List Char × List Char} {rawKey rawValue post : List Char}

/-- The key of a property after a gap. -/
private theorem key_of_gap {gap : List Char} (hgap : ∀ c ∈ gap, isBlank c = true)
    (hk : IsKey rawKey) : IsKey (gap ++ trim rawKey) ∧ trim (gap ++ trim rawKey) = trim rawKey ∧
      Rearranged (code rawKey) (code (gap ++ trim rawKey)) := by
  have htrim : trim (gap ++ trim rawKey) = trim rawKey := by
    have hnil : ∀ c ∈ ([] : List Char), isBlank c = true := by simp
    have happend := trim_append hgap hnil (trim rawKey)
    rwa [List.append_nil, trim_trim] at happend
  have hkey : IsKey (gap ++ trim rawKey) := by
    rw [← isKey_trim_iff, htrim, isKey_trim_iff]
    exact hk
  refine ⟨hkey, htrim, rearranged_of_trim hk.closed hkey.closed ?_⟩
  rw [htrim]
  exact .refl _

/-- The layout of the value of a property before a gap. -/
private theorem value_of_gap (hpost : ∀ c ∈ post, isBlank c = true) (hv : IsValue rawValue)
    (hkeeps : Keeps indent depth (trim rawValue)) :
    IsValue (' ' :: (layoutObjects indent depth (trim rawValue) ++ post)) ∧
      trim (' ' :: (layoutObjects indent depth (trim rawValue) ++ post)) =
        layoutObjects indent depth (trim rawValue) ∧
      Rearranged (code rawValue)
        (code (' ' :: (layoutObjects indent depth (trim rawValue) ++ post))) := by
  have htrimmed := isValue_trim_iff.2 hv
  obtain ⟨hclosed, hcode⟩ := hkeeps htrimmed.closed
  have htrim : trim (' ' :: (layoutObjects indent depth (trim rawValue) ++ post)) =
      layoutObjects indent depth (trim rawValue) := by
    have hspace : ∀ c ∈ [' '], isBlank c = true := List.forall_mem_singleton.2 (by decide)
    have happend := trim_append hspace hpost (layoutObjects indent depth (trim rawValue))
    rwa [trim_layoutObjects (trim_trim rawValue), List.append_assoc] at happend
  have hvalue : IsValue (' ' :: (layoutObjects indent depth (trim rawValue) ++ post)) := by
    rw [← isValue_trim_iff, htrim]
    exact ⟨hclosed, hcode.clear 0 htrimmed.clear⟩
  refine ⟨hvalue, htrim, rearranged_of_trim hv.closed hvalue.closed ?_⟩
  rw [htrim]
  exact hcode

/-- Properties are found again if their values are laid out and their spacing changes. -/
theorem Divides.layout (h : Divides inside properties) (hgap : ∀ c ∈ gaps.1, isBlank c = true)
    (hpost : ∀ c ∈ gaps.2, isBlank c = true)
    (hkeeps : ∀ p ∈ properties, Keeps indent (depth + 1) p.2) :
    Divides (spaced gaps (properties.map (layoutProperty indent depth)))
        (properties.map (layoutProperty indent depth)) ∧
      Rearranged (code inside)
        (code (spaced gaps (properties.map (layoutProperty indent depth)))) := by
  have hblank : ∀ c ∈ gaps.1 ++ gaps.2, isBlank c = true := fun c hc =>
    (List.mem_append.1 hc).elim (hgap c) (hpost c)
  induction h with
  | blank hr =>
    rw [List.map_nil, spaced_nil, code_of_isBlank hr, code_of_isBlank hblank]
    exact ⟨.blank hblank, .of_isBlank hr hblank⟩
  | @skip raw rest properties hr _ ih =>
    obtain ⟨hdivides, hcode⟩ := ih hkeeps
    refine ⟨hdivides, ?_⟩
    rw [(Closed.of_isBlank hr).code_append_cons rfl, code_of_isBlank hr]
    exact (Rearranged.drop hr).append (.append .comma hcode)
  | @last rawKey rawValue hk hv =>
    obtain ⟨hkey, hkeyTrim, hkeyCode⟩ := key_of_gap hgap hk
    obtain ⟨hvalue, hvalueTrim, hvalueCode⟩ :=
      value_of_gap hpost hv (hkeeps _ (List.mem_singleton_self _))
    have hlast := Divides.last hkey hvalue
    rw [hkeyTrim, hvalueTrim] at hlast
    rw [List.map_singleton, spaced_singleton, layoutProperty]
    refine ⟨hlast, ?_⟩
    rw [hk.closed.code_append_cons rfl, hkey.closed.code_append_cons rfl]
    exact hkeyCode.append (.cons ':' hvalueCode)
  | @cons rawKey rawValue rest properties hk hv hn hrest ih =>
    rw [List.forall_mem_cons] at hkeeps
    obtain ⟨hdivides, hcode⟩ := ih hkeeps.2
    obtain ⟨hkey, hkeyTrim, hkeyCode⟩ := key_of_gap hgap hk
    rw [hk.closed.code_append_cons rfl, hv.closed.code_append_cons rfl]
    cases properties with
    | nil =>
      -- The comma after the last property is dropped, with the blanks behind it.
      obtain ⟨hvalue, hvalueTrim, hvalueCode⟩ := value_of_gap hpost hv hkeeps.1
      have hlast := Divides.last hkey hvalue
      rw [hkeyTrim, hvalueTrim] at hlast
      rw [List.map_singleton, spaced_singleton, layoutProperty]
      refine ⟨hlast, ?_⟩
      rw [List.map_nil, spaced_nil, code_of_isBlank hblank] at hcode
      have hdrop : Rearranged (',' :: code rest) [] :=
        .append .comma (hcode.trans (.drop hblank))
      have hall := hkeyCode.append (.cons ':' (hvalueCode.append hdrop))
      rwa [List.append_nil, ← hkey.closed.code_append_cons rfl] at hall
    | cons q more =>
      have hnil : ∀ c ∈ ([] : List Char), isBlank c = true := by simp
      obtain ⟨hvalue, hvalueTrim, hvalueCode⟩ := value_of_gap hnil hv hkeeps.1
      rw [List.append_nil] at hvalue hvalueTrim hvalueCode
      have hnet := hvalueCode.net_eq.trans hn
      have hcons := Divides.cons hkey hvalue hnet hdivides
      rw [hkeyTrim, hvalueTrim] at hcons
      rw [List.map_cons, List.map_cons, spaced_cons_cons, layoutProperty]
      refine ⟨hcons, ?_⟩
      have hall := hkeyCode.append (.cons ':' (hvalueCode.append (.cons ',' hcode)))
      rwa [← hvalue.closed.code_append_cons (c := ',') rfl, ← hkey.closed.code_append_cons rfl]
        at hall

end Properties

theorem isBlank_of_mem_spacing (indent depth : Int) (properties : List Property) :
    (∀ c ∈ (spacing indent depth properties).1, isBlank c = true) ∧
      ∀ c ∈ (spacing indent depth properties).2, isBlank c = true := by
  have hspace : ∀ c ∈ [' '], isBlank c = true := List.forall_mem_singleton.2 (by decide)
  have hline (width : Int) : ∀ c ∈ '\n' :: blanks width, isBlank c = true :=
    List.forall_mem_cons.2 ⟨by decide, fun c => isBlank_of_mem_blanks⟩
  unfold spacing
  split_ifs
  · exact ⟨hspace, hspace⟩
  · exact ⟨hline _, hline _⟩

/-- The layout of a body counts its brackets alike if those of its values do. -/
private theorem rearranged_layoutBody (indent depth : Int) (hi : IsBody inside)
    (h : ∀ properties, Relaid inside properties →
      ∀ p ∈ properties, Keeps indent (depth + 1) p.2) :
    Closed (layoutBody indent depth inside) ∧
      Rearranged (code inside) (code (layoutBody indent depth inside)) := by
  by_cases hblank : trim inside = []
  · have hinside := trim_eq_nil_iff.1 hblank
    rw [layoutBody_of_isBlank hblank, code_of_isBlank hinside]
    exact ⟨.nil, .drop hinside⟩
  by_cases hrelaid : ∃ properties, Relaid inside properties
  · obtain ⟨properties, hrelaid⟩ := hrelaid
    obtain ⟨hgap, hpost⟩ := isBlank_of_mem_spacing indent depth properties
    obtain ⟨hdivides, hcode⟩ := hrelaid.divides.layout hgap hpost (h properties hrelaid)
    rw [layoutBody_of_relaid hrelaid]
    exact ⟨hdivides.closed, hcode⟩
  · rw [layoutBody_of_not_relaid hi hblank (not_exists.1 hrelaid)]
    exact ⟨hi.closed, .refl _⟩

/-- The layout closes the quotes and brackets of every text. -/
theorem keeps (indent depth : Int) (text : List Char) : Keeps indent depth text := by
  induction text using layout_induction generalizing depth with
  | step text ih =>
    intro hclosed
    induction outline text with
    | rest h =>
      rw [layoutObjects_rest h]
      exact ⟨hclosed, .refl _⟩
    | @object gap inside rest hg hi _ ihrest =>
      rw [bodies_object hg hi, List.forall_mem_cons] at ih
      rw [hg.closed.append_iff, Closed.cons_iff rfl, hi.closed.append_iff, Closed.cons_iff rfl]
        at hclosed
      obtain ⟨hbody, hbodyCode⟩ := rearranged_layoutBody indent depth hi
        fun properties hrelaid p hp => ih.1 properties hrelaid p hp (depth + 1)
      obtain ⟨hrest, hrestCode⟩ := ihrest ih.2 hclosed
      have hcloses := hg.closed.append
        ((Closed.cons_iff (c := '{') rfl).2
          (hbody.append ((Closed.cons_iff (c := '}') rfl).2 hrest)))
      rw [layoutObjects_object hg hi]
      refine ⟨hcloses, ?_⟩
      rw [hg.closed.code_append_cons rfl, hg.closed.code_append_cons rfl,
        hi.closed.code_append_cons rfl, hbody.code_append_cons rfl]
      exact (Rearranged.refl _).append (.cons _ (hbodyCode.append (.cons _ hrestCode)))

/-- The layout of a body is one. -/
theorem isBody_layoutBody (hi : IsBody inside) : IsBody (layoutBody indent depth inside) := by
  obtain ⟨hclosed, hcode⟩ := rearranged_layoutBody indent depth hi
    fun _ _ p _ => keeps indent (depth + 1) p.2
  exact ⟨hclosed, (hcode.level_eq 1).trans hi.level⟩

/-! ### Neighbours -/

/-- The signs that the layout moves blanks around, and the blank that it puts next to them. -/
def layoutSigns : List Char := ['{', '}', ',', ':', ' ']

/-- A relation between neighbours that holds next to these signs, and at the ends of blanks. -/
def Tolerates (R : Char → Char → Prop) : Prop :=
  ∀ a b, a ∈ layoutSigns ∨ b ∈ layoutSigns ∨ isBlank a ≠ isBlank b → R a b

section Neighbours

variable {R : Char → Char → Prop}

/-- Texts with a sign between them. -/
private theorem isChain_append_cons (hR : Tolerates R) {a b : List Char} {c : Char}
    (hc : c ∈ layoutSigns) (ha : a.IsChain R) (hb : b.IsChain R) : (a ++ c :: b).IsChain R := by
  rw [List.isChain_append, List.isChain_cons]
  exact ⟨ha, ⟨fun y _ => hR c y (.inl hc), hb⟩, fun x _ y hy => by
    obtain rfl := Option.some.inj hy
    exact hR x c (.inr (.inl hc))⟩

/-- Blanks and a text without blanks at its ends, in either order. -/
private theorem isChain_append_of_ends (hR : Tolerates R) {a b : List Char} (ha : a.IsChain R)
    (hb : b.IsChain R) (h : ∀ x ∈ a.getLast?, ∀ y ∈ b.head?, isBlank x ≠ isBlank y) :
    (a ++ b).IsChain R := by
  rw [List.isChain_append]
  exact ⟨ha, hb, fun x hx y hy => hR x y (.inr (.inr (h x hx y hy)))⟩

private theorem isChain_spacing (hR : Tolerates R) (indent depth : Int)
    (properties : List Property) :
    (spacing indent depth properties).1.IsChain R ∧
      (spacing indent depth properties).2.IsChain R := by
  have hspace (a : Char) : R a ' ' := hR a ' ' (.inr (.inl (by decide)))
  have hline (width : Int) : ('\n' :: blanks width).IsChain R := by
    rw [List.isChain_cons]
    refine ⟨fun y hy => ?_, List.isChain_replicate_of_rel _ (hspace ' ')⟩
    rw [List.eq_of_mem_replicate (List.mem_of_mem_head? hy)]
    exact hspace _
  unfold spacing
  split_ifs
  · exact ⟨.singleton ' ', .singleton ' '⟩
  · exact ⟨hline _, hline _⟩

/-- Properties next to their gaps: a key or a value has no blanks at its ends. -/
private theorem isChain_spaced (hR : Tolerates R) {gaps : List Char × List Char}
    (hgap : gaps.1.IsChain R ∧ ∀ c ∈ gaps.1, isBlank c = true)
    (hpost : gaps.2.IsChain R ∧ ∀ c ∈ gaps.2, isBlank c = true)
    (hne : properties ≠ [])
    (h : ∀ p ∈ properties, (trim p.1 = p.1 ∧ trim p.2 = p.2) ∧ p.1.IsChain R ∧ p.2.IsChain R) :
    (spaced gaps properties).IsChain R := by
  -- A property with what follows its value.
  have hproperty (p : Property) (hp : (trim p.1 = p.1 ∧ trim p.2 = p.2) ∧ p.1.IsChain R)
      {rest : List Char} (hrest : (p.2 ++ rest).IsChain R) :
      (gaps.1 ++ p.1 ++ ':' :: ' ' :: (p.2 ++ rest)).IsChain R := by
    refine isChain_append_cons hR (by decide) ?_
      (isChain_append_cons (a := []) hR (by decide) .nil hrest)
    refine isChain_append_of_ends hR hgap.1 hp.2 fun x hx y hy => ?_
    rw [hgap.2 x (List.mem_of_mem_getLast? hx), (trim_eq_self_iff.1 hp.1.1).1 y hy]
    decide
  induction properties with
  | nil => exact absurd rfl hne
  | cons p more ih =>
    rw [List.forall_mem_cons] at h
    obtain ⟨⟨htrim, hkey, hvalue⟩, hmore⟩ := h
    cases more with
    | nil =>
      rw [spaced_singleton]
      refine hproperty p ⟨htrim, hkey⟩
        (isChain_append_of_ends hR hvalue hpost.1 fun x hx y hy => ?_)
      rw [(trim_eq_self_iff.1 htrim.2).2 x hx, hpost.2 y (List.mem_of_mem_head? hy)]
      decide
    | cons q more =>
      rw [spaced_cons_cons]
      exact hproperty p ⟨htrim, hkey⟩
        (isChain_append_cons hR (by decide) hvalue (ih (by simp) hmore))

private theorem isChain_layoutBody (hR : Tolerates R) (hi : IsBody inside) (h : inside.IsChain R)
    (hvalues : ∀ properties, Relaid inside properties → ∀ p ∈ properties, p.2.IsChain R →
      (layoutObjects indent (depth + 1) p.2).IsChain R) :
    (layoutBody indent depth inside).IsChain R := by
  have hpart {part : List Char} (hpart : part <:+: inside) : part.IsChain R :=
    List.IsChain.infix h hpart
  by_cases hblank : trim inside = []
  · rw [layoutBody_of_isBlank hblank]
    exact .nil
  by_cases hrelaid : ∃ properties, Relaid inside properties
  · obtain ⟨properties, hrelaid⟩ := hrelaid
    rw [layoutBody_of_relaid hrelaid]
    by_cases hne : properties = []
    · obtain rfl := hne
      exact isChain_append_cons hR (by decide) (.singleton ' ') .nil
    obtain ⟨hgap, hpost⟩ := isChain_spacing hR indent depth properties
    obtain ⟨hgapBlank, hpostBlank⟩ := isBlank_of_mem_spacing indent depth properties
    refine isChain_spaced hR ⟨hgap, hgapBlank⟩ ⟨hpost, hpostBlank⟩ (by simpa using hne)
      (List.forall_mem_map.2 fun p hp => ?_)
    obtain ⟨hkeyTrim, hvalueTrim⟩ := hrelaid.divides.trim_eq hp
    obtain ⟨hkey, hvalue⟩ := hrelaid.divides.isInfix hp
    exact ⟨⟨hkeyTrim, trim_layoutObjects hvalueTrim⟩, hpart hkey,
      hvalues properties hrelaid p hp (hpart hvalue)⟩
  · rwa [layoutBody_of_not_relaid hi hblank (not_exists.1 hrelaid)]

/-- The layout of a text has the neighbours of the text, and others that are tolerated. -/
theorem isChain_layoutObjects (hR : Tolerates R) (indent depth : Int) (h : text.IsChain R) :
    (layoutObjects indent depth text).IsChain R := by
  induction text using layout_induction generalizing depth with
  | step text ih =>
    induction outline text with
    | rest hspans => rwa [layoutObjects_rest hspans]
    | @object gap inside rest hg hi _ ihrest =>
      rw [bodies_object hg hi, List.forall_mem_cons] at ih
      have hgap : gap.IsChain R := h.left_of_append
      have hinside : inside.IsChain R :=
        List.IsChain.infix h ⟨gap ++ ['{'], '}' :: rest, by simp⟩
      have hrest : rest.IsChain R :=
        List.IsChain.infix h ⟨gap ++ '{' :: (inside ++ ['}']), [], by simp⟩
      have hbody := isChain_layoutBody hR hi hinside fun properties hrelaid p hp hp' =>
        ih.1 properties hrelaid p hp (depth + 1) hp'
      rw [layoutObjects_object hg hi]
      exact isChain_append_cons hR (by decide) hgap
        (isChain_append_cons hR (by decide) hbody (ihrest ih.2 hrest))

end Neighbours

end StackScript.Layout
