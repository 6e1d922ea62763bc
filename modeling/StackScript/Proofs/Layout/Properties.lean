import StackScript.Proofs.Decompile.Legible
import StackScript.Proofs.Layout.Spelled

/-!
# The properties of objects are found again

The layout finds the properties of an object in its spelling, by counting brackets and looking for
commas and colons. For the objects of a template it finds just those that the template holds: as
many, in the same order, with their keys and values as they are spelled by themselves, whatever
brackets, commas, colons and quotes the keys and values hold. The object itself is found as a whole.

## Main definitions

* `Expr.objectFields?`: the properties of an object, or of the body of a declaration.
* `Template.HoldsObject`: an object stands in a template.

## Main results

* `Template.HoldsObject.forall_occurs`: what holds of all expressions in a template holds of those
  in its objects.
* `splitProperties_spell_object`: the properties of the objects of a template are found.
-/

namespace StackScript

open Text

/-! ### The objects of a template -/

/-- The properties of an object, also of one that is the body of a declaration. -/
def Expr.objectFields? : Expr → Option (List (String × Expr))
  | .object fields => some fields
  | e => e.bodyFields?

/-- An object with the given properties stands in a template, at any depth. -/
def Template.HoldsObject (t : Template) (fields : List (String × Expr)) : Prop :=
  ∃ place e, t.Occurs place e ∧ e.objectFields? = some fields

/-- The values of an object stand right inside it. -/
private theorem mem_children_of_objectFields {e : Expr} {fields : List (String × Expr)}
    (h : e.objectFields? = some fields) {f : String × Expr} (hf : f ∈ fields) :
    (.value, f.2) ∈ e.children := by
  cases e with
  | object | body =>
    cases h
    exact List.mem_map_of_mem (f := fun f => (Place.value, f.2)) hf
  | resource type properties modifiers =>
    obtain rfl : properties = some fields := h
    exact List.mem_append_left _ (List.mem_map_of_mem (f := fun f => (Place.value, f.2)) hf)
  | _ => cases h

variable {t : Template} {fields : List (String × Expr)}

/-- What holds of all expressions in a template holds of those in its objects. -/
theorem Template.HoldsObject.forall_occurs {P : Expr → Prop} (h : t.HoldsObject fields)
    (hP : ∀ st ∈ t.statements, ∀ place place' e, StackScript.Occurs place st.root.2 place' e → P e)
    (hobject : P (.object fields)) :
    ∀ place place' e, StackScript.Occurs place (.object fields) place' e → P e := by
  obtain ⟨place, e, ⟨st, hst, hin⟩, hfields⟩ := h
  rintro _ place' e' (_ | ⟨hc, hinside⟩)
  · exact hobject
  · obtain ⟨f, hf, rfl⟩ := List.mem_map.1 hc
    have hvalue := mem_children_of_objectFields hfields hf
    exact hP st hst _ place' e' (hin.trans (.inside hvalue hinside))

/-! ### Spelled objects -/

namespace Layout

/-- The keys and the values of properties, each as it is spelled by itself. -/
def spellProperties (fields : List (String × Expr)) : Except SpellFault (List Property) :=
  fields.mapM fun f => (spellKey f.1.toList, ·) <$> f.2.spell

/-- The properties of a legible object are found in its spelling, and so is the object. -/
theorem exists_properties_of_spell (hlegible : (Expr.object fields).IsLegible) (hne : fields ≠ [])
    {text : List Char} (h : (Expr.object fields).spell = .ok text) :
    ∃ inside properties, text = '{' :: (inside ++ ['}']) ∧
      spellProperties fields = .ok properties ∧ splitProperties (trim inside) = some properties ∧
      objectSpans text = [(0, text.length)] := by
  rw [Expr.spell] at h
  obtain ⟨texts, htexts, h⟩ := bind_eq_ok_iff.1 h
  cases h
  obtain ⟨values, rfl, hvalues⟩ := Expr.exists_values_of_spellFields htexts
  have hphrase (v : String × List Char) (hv : v ∈ values) : IsPhrase v.2 := by
    obtain ⟨f, hf, -, htext⟩ := exists_of_mem_right hvalues hv
    refine isPhrase_spell ((Expr.isLegible_iff.1 hlegible).2 f.2 ?_) htext
    rw [Expr.children_object_snd]
    exact List.mem_map_of_mem hf
  have hcode (v : String × List Char) (hv : v ∈ values) : Code v.2 := (hphrase v hv).code
  have htight (v : String × List Char) (hv : v ∈ values) : IsTight v.2 := (hphrase v hv).tight
  have hvalues_ne : values ≠ [] := by
    rintro rfl
    cases hvalues
    exact hne rfl
  refine ⟨inBraces values, values.map fun v => (spellKey v.1.toList, v.2), objectText_eq values,
    ?_, ?_, objectSpans_objectText hcode⟩
  · rw [spellProperties, mapM_eq_ok_iff, List.forall₂_map_right_iff]
    refine hvalues.imp fun f v hv => ?_
    rw [hv.1, hv.2]
    rfl
  · rw [trim_inBraces hvalues_ne htight, splitProperties_bodyText hvalues_ne hcode htight]

end Layout

open Layout

/-- **The properties of objects are found again.** Take an object with at least one property,
anywhere in a template that was read from a script or from a document. In its spelling, the text
between the braces is split into the keys and values as they are spelled by themselves, in order,
and the whole text is the one outermost object. The object has a spelling unless an integer in it
is too long to be written, and no integer in a script is. -/
theorem splitProperties_spell_object
    (ht : (∃ limit text, parseScript limit text = .ok t) ∨
      ∃ limit document, (decompileTemplate limit document).1 = .ok t)
    (hfields : t.HoldsObject fields) (hne : fields ≠ []) :
    (∀ text, (Expr.object fields).spell = .ok text →
      ∃ inside properties, text = '{' :: (inside ++ ['}']) ∧
        spellProperties fields = .ok properties ∧
        splitProperties (trim inside) = some properties ∧
        objectSpans text = [(0, text.length)]) ∧
    ((∃ text, (Expr.object fields).spell = .ok text) ↔ (Expr.object fields).IsWritable) ∧
    ((∃ limit text, parseScript limit text = .ok t) →
      ∃ text, (Expr.object fields).spell = .ok text) := by
  have hlegible : (Expr.object fields).IsLegible := by
    refine hfields.forall_occurs ?_ trivial
    rcases ht with ⟨limit, text, ht⟩ | ⟨limit, document, ht⟩
    · exact isLegible_of_parseScript ht
    · exact isLegible_of_decompileTemplate ht
  have hspell :
      (∃ text, (Expr.object fields).spell = .ok text) ↔ (Expr.object fields).IsWritable := by
    refine Expr.exists_spell_iff_isWritable (hfields.forall_occurs ?_ trivial)
    rcases ht with ⟨limit, text, ht⟩ | ⟨limit, document, ht⟩
    · exact fun st hst _ _ _ hin =>
        ((isWellFormed_of_parseScript ht).root hst _ _ _ hin).hasOperands
    · obtain ⟨scope, -, hreads⟩ := Decompile.exists_templateReads ht
      exact hreads.forall_occurs Decompile.Shaped.hasOperands
        Decompile.ShapedDeclaration.hasOperands
  refine ⟨fun text => exists_properties_of_spell hlegible hne, hspell, ?_⟩
  rintro ⟨limit, text, ht⟩
  refine hspell.2 (hfields.forall_occurs ?_ (fun n hn => by cases hn))
  rintro st hst place place' _ hin n rfl
  exact (isWellFormed_of_parseScript ht).root hst place place' _ hin n rfl

/-- A script whose properties hold every sign that properties are split at. -/
private def signScript : List Char :=
  "r=Resource A::B".toList ++ '{' :: "'k:, ':".toList ++ '{' :: "b:[1,f(r,',')]".toList ++ '}' ::
    ",c:r[".toList ++ ['\'', '}', '\''] ++ ",'x'],d:'\\'".toList ++ ['{', ':', '\'', '}']

/-- The object that the first statement of a template holds, if it holds one. -/
private def firstFields? (t : Template) : Option (List (String × Expr)) :=
  t.statements.head?.bind fun st => st.root.2.objectFields?

private theorem holdsObject_of_firstFields (h : firstFields? t = some fields) :
    t.HoldsObject fields := by
  obtain ⟨st, hst, hfields⟩ := Option.bind_eq_some_iff.1 h
  exact ⟨st.root.1, st.root.2, ⟨st, List.mem_of_mem_head? hst, .self ..⟩, hfields⟩

/-- The properties in the script with signs, as they are spelled. -/
private def signProperties : List Property :=
  [("'k:, '".toList, '{' :: " b: [1, f(r, ',')] ".toList ++ ['}']),
    ("c".toList, "r[".toList ++ ['\'', '}', '\''] ++ ", 'x']".toList),
    ("d".toList, "'\\'".toList ++ ['{', ':', '\''])]

/-- The properties in the script with signs are found again. -/
theorem splitProperties_signScript :
    ∃ t fields text inside, parseScript 8 signScript = .ok t ∧ t.HoldsObject fields ∧
      (Expr.object fields).spell = .ok text ∧ text = '{' :: (inside ++ ['}']) ∧
      splitProperties (trim inside) = some signProperties ∧
      objectSpans text = [(0, text.length)] := by
  have hsample : (parseScript 8 signScript).toOption.any (fun t => (firstFields? t).any
      fun fields => (spellProperties fields).toOption.any (· == signProperties)) = true := by
    decide +kernel
  obtain ⟨t, ht, hsample⟩ := exists_ok_of_any hsample
  cases hfirst : firstFields? t with
  | none => simp [hfirst] at hsample
  | some fields =>
    rw [hfirst, Option.any_some] at hsample
    obtain ⟨properties, hproperties, hsigns⟩ := exists_ok_of_any hsample
    obtain rfl := eq_of_beq hsigns
    have hne : fields ≠ [] := by
      rintro rfl
      cases hproperties
    have hholds := holdsObject_of_firstFields hfirst
    obtain ⟨hsplit, -, hspell⟩ := splitProperties_spell_object (.inl ⟨8, signScript, ht⟩) hholds hne
    obtain ⟨text, htext⟩ := hspell ⟨8, signScript, ht⟩
    obtain ⟨inside, properties, hinside, hproperties', hfound, hspan⟩ := hsplit text htext
    cases hproperties.symm.trans hproperties'
    exact ⟨t, fields, text, inside, ht, hholds, htext, hinside, hfound, hspan⟩

end StackScript
