import StackScript.Document.Basic
import StackScript.Proofs.Compile.Trees
import StackScript.Proofs.Yaml.JsonReading

/-!
# Documents as JSON texts

The document of a template can always be written as JSON, but JSON texts are read as YAML. The text
of a document is read back as the same document exactly if all of its scalars and keys are kept;
floating-point numbers written with an exponent but without a point are not, among others.

## Main results

* `exists_json_iff`: documents that are read back from their JSON text.
* `loadDocument_json_of_parseScript`: documents of templates that are read.
-/

namespace StackScript

open Value (keyed)

/-- A text is loaded as a document if it denotes the document. -/
theorem loadDocument_eq_ok_iff {text : List Char} {fields : List (String × Value)} :
    loadDocument text = .ok (.map (keyed fields)) ↔
      Yaml.read text = .ok (.map (keyed fields)) := by
  constructor
  · intro h
    unfold loadDocument at h
    split at h
    · cases h
    · cases h
    next value _ hread =>
      split at h
      · split_ifs at h
        cases h
        exact hread
      · cases h
  · intro h
    have hkeys : ((keyed fields).all fun field => field.1.isWritable) = true := by
      simp [keyed]
    unfold loadDocument
    rw [h]
    exact if_pos hkeys

/-- A document can be written as JSON, and is read back exactly if all of its parts are kept. -/
theorem exists_json_iff {fields : List (String × Value)}
    (h : (Value.map (keyed fields)).IsWritableTree) :
    ∃ json, dumpDocument .json (.map (keyed fields)) = .ok json ∧
      (loadDocument json = .ok (.map (keyed fields)) ↔
        (Value.map (keyed fields)).all Yaml.isKeptScalar Yaml.isKeptKey = true) := by
  refine ⟨Json.text 0 (.map (keyed fields)) ++ ['\n'], ?_, ?_⟩
  · rw [dumpDocument, Json.write, Json.value_eq_ok h.isTree h.isWritable]
    rfl
  · rw [loadDocument_eq_ok_iff]
    exact Yaml.read_text_eq_iff h.isTree h.isWritable

theorem isWritableTree_of_parseScript {limit : Nat} {text : List Char} {t : Template}
    {document : Value} (h : parseScript limit text = .ok t)
    (hdocument : t.toDocument = .ok document) :
    ∃ fields, document = .map (keyed fields) ∧ document.IsWritableTree := by
  have hwell := isWellFormed_of_parseScript h
  obtain ⟨sections, rfl, hsections⟩ := hwell.hasSections hdocument
  exact ⟨sections, rfl, hsections.isWritableTree hwell⟩

/-- **The document of a template that is read can be written as JSON, and is read back with the same
keys in the same order and the same scalars exactly if all of its scalars and keys are kept.** -/
theorem loadDocument_json_of_parseScript {limit : Nat} {text : List Char} {t : Template}
    {document : Value} (h : parseScript limit text = .ok t)
    (hdocument : t.toDocument = .ok document) :
    ∃ json, dumpDocument .json document = .ok json ∧
      (loadDocument json = .ok document ↔
        document.all Yaml.isKeptScalar Yaml.isKeptKey = true) := by
  obtain ⟨fields, rfl, htree⟩ := isWritableTree_of_parseScript h hdocument
  exact exists_json_iff htree

/-- A script with an output of scalars of all types, among them a string with characters that are
escaped, and a number with a point and an exponent. -/
private def scalarScript : List Char :=
  "r = Resource T\no = Output ".toList ++
    '{' :: "'a b': ['\\t\\\"é', -7, 0.0000015, true, null, r.Arn]".toList ++ ['}']

/-- The document of the script with scalars is read back. -/
theorem loadDocument_json_scalarScript :
    ∃ t document json, parseScript 8 scalarScript = .ok t ∧ t.toDocument = .ok document ∧
      dumpDocument .json document = .ok json ∧ loadDocument json = .ok document := by
  have hread : ((parseScript 8 scalarScript).toOption.any fun t =>
      t.toDocument.toOption.any fun document =>
        document.all Yaml.isKeptScalar Yaml.isKeptKey) = true := by decide +kernel
  cases hparse : parseScript 8 scalarScript with
  | error e => simp [hparse, Except.toOption] at hread
  | ok t =>
    cases hdocument : t.toDocument with
    | error e => simp [hparse, hdocument, Except.toOption] at hread
    | ok document =>
      simp only [hparse, hdocument, Except.toOption, Option.any_some] at hread
      obtain ⟨json, hjson, hiff⟩ := loadDocument_json_of_parseScript hparse hdocument
      exact ⟨t, document, json, rfl, hdocument, hjson, hiff.2 hread⟩

/-- A script with an output of a large number. -/
private def largeScript : List Char := "o = Output { Value: 10000000000000000.0 }".toList

/-- The text of a number without a point is read as a string. -/
theorem loadDocument_json_largeScript_ne :
    ∃ t document json, parseScript 8 largeScript = .ok t ∧ t.toDocument = .ok document ∧
      dumpDocument .json document = .ok json ∧ loadDocument json ≠ .ok document := by
  have hread : ((parseScript 8 largeScript).toOption.any fun t =>
      t.toDocument.toOption.any fun document =>
        !document.all Yaml.isKeptScalar Yaml.isKeptKey) = true := by decide +kernel
  cases hparse : parseScript 8 largeScript with
  | error e => simp [hparse, Except.toOption] at hread
  | ok t =>
    cases hdocument : t.toDocument with
    | error e => simp [hparse, hdocument, Except.toOption] at hread
    | ok document =>
      simp only [hparse, hdocument, Except.toOption, Option.any_some, Bool.not_eq_true'] at hread
      obtain ⟨fields, rfl, htree⟩ := isWritableTree_of_parseScript hparse hdocument
      obtain ⟨json, hjson, hiff⟩ := exists_json_iff htree
      refine ⟨t, _, json, rfl, hdocument, hjson, fun hload => ?_⟩
      rw [hiff.1 hload] at hread
      cases hread

end StackScript
