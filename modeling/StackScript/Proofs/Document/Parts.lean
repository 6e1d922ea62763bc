import StackScript.Proofs.Document.Tree

/-!
# Parts of trees

What holds of every scalar and every key of a tree, and trees whose scalars are replaced by others.

## Main definitions

* `Value.all`: whether all scalars and all keys pass a test.
* `Value.mapScalars`: the tree with other scalars.

## Main results

* `Value.tree_induction`: induction over the parts of a tree.
* `Value.mapScalars_eq_self_iff`: a tree stays the same if all of its scalars do.
-/

namespace StackScript.Value

/-! ### Induction -/

theorem sizeOf_item_lt {item : Value} {items : List Value} (h : item ∈ items) :
    sizeOf item < sizeOf (Value.list items) := by
  have := List.sizeOf_lt_of_mem h
  simp only [list.sizeOf_spec]
  omega

theorem sizeOf_entry_lt {entry : Value × Value} {entries : List (Value × Value)}
    (h : entry ∈ entries) : sizeOf entry.2 < sizeOf (Value.map entries) := by
  have := List.sizeOf_lt_of_mem h
  obtain ⟨key, value⟩ := entry
  simp only [map.sizeOf_spec, Prod.mk.sizeOf_spec] at this ⊢
  omega

/-- What holds of scalars, and of lists and mappings of trees of which it holds, holds of all
trees. -/
@[elab_as_elim]
theorem tree_induction {motive : (v : Value) → v.isTree = true → Prop}
    (scalar : ∀ s, motive (.scalar s) (isTree_scalar s))
    (list : ∀ items (h : isTree (.list items) = true),
      (∀ item (hitem : item ∈ items), motive item (isTree_list_iff.1 h item hitem)) →
      motive (.list items) h)
    (map : ∀ fields (h : isTree (.map (keyed fields)) = true),
      (∀ field (hfield : field ∈ fields),
        motive field.2 ((isTree_keyed_iff.1 h).2 field hfield)) →
      motive (.map (keyed fields)) h) :
    ∀ (v : Value) (h : v.isTree = true), motive v h
  | .scalar s, _ => scalar s
  | .list items, h => list items h fun item hitem => tree_induction scalar list map item _
  | .map entries, h => by
    obtain ⟨fields, rfl, -⟩ := isTree_map_iff.1 h
    refine map fields h fun field hfield => ?_
    have hentry : (Value.str field.1, field.2) ∈ keyed fields := List.mem_map_of_mem hfield
    exact tree_induction scalar list map field.2 _
  | .bytes _, h | .tuple _, h | .set _, h | .date _, h | .moment _, h | .knot .., h | .link _, h =>
    by simp [isTree] at h
termination_by v => sizeOf v
decreasing_by
  · exact sizeOf_item_lt hitem
  · have heq : entries = keyed fields := ‹_›
    exact heq ▸ sizeOf_entry_lt hentry

/-! ### Tests of all parts -/

mutual

/-- Whether all scalars and all keys pass a test. -/
def all (scalar : Scalar → Bool) (key : String → Bool) : Value → Bool
  | .scalar s => scalar s
  | .list items => allItems scalar key items
  | .map entries => allEntries scalar key entries
  | _ => true

/-- `all` of every item. -/
def allItems (scalar : Scalar → Bool) (key : String → Bool) : List Value → Bool
  | [] => true
  | item :: rest => all scalar key item && allItems scalar key rest

/-- Whether every key passes the test, and `all` of the value of every entry. -/
def allEntries (scalar : Scalar → Bool) (key : String → Bool) : List (Value × Value) → Bool
  | [] => true
  | (.str k, value) :: rest => key k && all scalar key value && allEntries scalar key rest
  | (_, value) :: rest => all scalar key value && allEntries scalar key rest

end

variable {scalar scalar' : Scalar → Bool} {key key' : String → Bool}

@[simp] theorem all_scalar (s : Scalar) : all scalar key (.scalar s) = scalar s := by simp [all]

@[simp] theorem all_list (items : List Value) :
    all scalar key (.list items) = items.all (all scalar key) := by
  rw [all]
  induction items with
  | nil => simp [allItems]
  | cons item items ih => simp [allItems, ih]

@[simp] theorem all_keyed (fields : List (String × Value)) :
    all scalar key (.map (keyed fields)) =
      fields.all fun field => key field.1 && all scalar key field.2 := by
  rw [all]
  induction fields with
  | nil => simp [allEntries]
  | cons field fields ih => simp [allEntries, ih]

/-- Two tests of all parts are one. -/
theorem all_and {v : Value} (h : v.isTree = true) :
    (v.all scalar key && v.all scalar' key') =
      v.all (fun s => scalar s && scalar' s) fun k => key k && key' k := by
  induction v, h using tree_induction with
  | scalar s => simp
  | list items _ ih =>
    rw [Bool.eq_iff_iff]
    simp only [all_list, Bool.and_eq_true, List.all_eq_true, ← forall₂_and]
    exact forall₂_congr fun item hitem => by rw [← ih item hitem, Bool.and_eq_true]
  | map fields _ ih =>
    rw [Bool.eq_iff_iff]
    simp only [all_keyed, Bool.and_eq_true, List.all_eq_true, ← forall₂_and]
    exact forall₂_congr fun field hfield => by
      rw [← ih field hfield, Bool.and_eq_true]
      tauto

/-! ### Other scalars -/

/-- The tree with other scalars. -/
def mapScalars (f : Scalar → Scalar) : Value → Value
  | .scalar s => .scalar (f s)
  | .list items => .list (items.map fun item => item.mapScalars f)
  | .map entries => .map (entries.map fun entry => (entry.1, entry.2.mapScalars f))
  | v => v
decreasing_by
  · exact sizeOf_item_lt ‹_›
  · exact sizeOf_entry_lt ‹_›

variable {f : Scalar → Scalar}

@[simp] theorem mapScalars_scalar (s : Scalar) : mapScalars f (.scalar s) = .scalar (f s) := by
  rw [mapScalars]

@[simp] theorem mapScalars_list (items : List Value) :
    mapScalars f (.list items) = .list (items.map (mapScalars f)) := by
  rw [mapScalars]

@[simp] theorem mapScalars_keyed (fields : List (String × Value)) :
    mapScalars f (.map (keyed fields)) =
      .map (keyed (fields.map fun field => (field.1, field.2.mapScalars f))) := by
  rw [mapScalars, keyed, keyed, List.map_map, List.map_map]
  rfl

private theorem map_eq_self_iff {α : Type} {g : α → α} {l : List α} :
    l.map g = l ↔ ∀ a ∈ l, g a = a := by
  rw [← List.map_inj_left, List.map_id']

/-- A tree stays the same if all of its scalars do. -/
theorem mapScalars_eq_self_iff {v : Value} (h : v.isTree = true) :
    v.mapScalars f = v ↔ v.all (fun s => f s == s) (fun _ => true) = true := by
  induction v, h using tree_induction with
  | scalar s => simp
  | list items _ ih =>
    simp only [mapScalars_list, list.injEq, all_list, List.all_eq_true]
    rw [map_eq_self_iff]
    exact forall₂_congr ih
  | map fields _ ih =>
    simp only [mapScalars_keyed, map.injEq, keyed_injective.eq_iff, all_keyed, List.all_eq_true,
      Bool.true_and]
    rw [map_eq_self_iff]
    exact forall₂_congr fun field hfield => by rw [← ih field hfield, Prod.ext_iff]; simp

end StackScript.Value
