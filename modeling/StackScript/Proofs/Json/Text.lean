import StackScript.Json.Writer
import StackScript.Proofs.Decompile.Failures
import StackScript.Proofs.Document.Parts

/-!
# JSON texts of trees

A tree has a text, unless one of its integers has too many digits.

## Main definitions

* `Json.word`: the text of a scalar that is no string.
* `Json.text`: the text of a tree on a level.

## Main results

* `Json.value_eq_ok`: a tree whose integers are not too long is written as its text.
-/

namespace StackScript.Json

open Value (keyed)

/-- The text of a scalar that is no string. -/
def word (s : Scalar) : List Char := (plainScalar s).toOption.getD []

/-- The text of a tree on a level. -/
def text (level : Nat) : Value → List Char
  | .scalar (.str s) => string s.toList
  | .scalar s => word s
  | .list items => block '[' ']' level (items.map fun item => text (level + 1) item)
  | .map entries =>
    block '{' '}' level (entries.map fun entry =>
      (key entry.1).toOption.getD [] ++ ':' :: ' ' :: text (level + 1) entry.2)
  | _ => []
termination_by v => sizeOf v
decreasing_by
  · exact Value.sizeOf_item_lt ‹_›
  · exact Value.sizeOf_entry_lt ‹_›

theorem text_str (level : Nat) (s : String) : text level (.str s) = string s.toList := by
  rw [text]

theorem text_scalar (level : Nat) {s : Scalar} (h : ∀ text, s ≠ .str text) :
    text level (.scalar s) = word s := by
  cases s with
  | str s => exact absurd rfl (h s)
  | _ => rw [text]; simp

theorem text_list (level : Nat) (items : List Value) :
    text level (.list items) = block '[' ']' level (items.map (text (level + 1))) := by
  rw [text]

theorem text_keyed (level : Nat) (fields : List (String × Value)) :
    text level (.map (keyed fields)) =
      block '{' '}' level (fields.map fun field =>
        string field.1.toList ++ ':' :: ' ' :: text (level + 1) field.2) := by
  rw [text, keyed, List.map_map]
  rfl

private theorem arrayItems_eq_ok {level : Nat} {items : List Value}
    (h : ∀ item ∈ items, value level item = .ok (text level item)) :
    arrayItems level items = .ok (items.map (text level)) := by
  induction items with
  | nil => rfl
  | cons item items ih =>
    rw [List.forall_mem_cons] at h
    rw [arrayItems, h.1, ih h.2]
    rfl

private theorem objectEntries_eq_ok {level : Nat} {fields : List (String × Value)}
    (h : ∀ field ∈ fields, value level field.2 = .ok (text level field.2)) :
    objectEntries level (keyed fields) = .ok (fields.map fun field =>
      string field.1.toList ++ ':' :: ' ' :: text level field.2) := by
  induction fields with
  | nil => rfl
  | cons field fields ih =>
    rw [List.forall_mem_cons] at h
    rw [Value.keyed_cons, objectEntries, h.1, ih h.2]
    rfl

/-- A tree whose integers are not too long is written as its text. -/
theorem value_eq_ok {v : Value} (htree : v.isTree = true) (h : v.isWritable = true) (level : Nat) :
    value level v = .ok (text level v) := by
  induction v, htree using Value.tree_induction generalizing level with
  | scalar s =>
    rw [value]
    cases s with
    | int n =>
      rw [text_scalar level (by simp)]
      obtain ⟨digits, hdigits⟩ := Option.isSome_iff_exists.1 (by simpa [Value.isWritable] using h)
      simp [scalar, word, plainScalar, int, hdigits, Except.toOption]
    | bool b =>
      rw [text_scalar level (by simp)]
      cases b <;> rfl
    | str s => rw [text_str, scalar]
    | _ =>
      rw [text_scalar level (by simp)]
      rfl
  | list items _ ih =>
    rw [Value.isWritable_list_iff] at h
    rw [value, arrayItems_eq_ok fun item hitem => ih item hitem (h item hitem) (level + 1),
      text_list]
    rfl
  | map fields _ ih =>
    rw [Value.isWritable_map_iff] at h
    have hfields (field : String × Value) (hfield : field ∈ fields) :
        value (level + 1) field.2 = .ok (text (level + 1) field.2) :=
      ih field hfield (h _ (List.mem_map_of_mem hfield)).2 (level + 1)
    rw [value, objectEntries_eq_ok hfields, text_keyed]
    rfl

end StackScript.Json
