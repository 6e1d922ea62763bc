import Mathlib.Data.List.Forall2
import StackScript.Compile
import StackScript.Text.Split

/-!
# Trees

The values that a template document is made of: scalars, lists, and mappings whose keys are
different strings. A tree is told apart from what else a document may hold by a computable test.
The list form of a tree writes every attribute access whose argument is one string with a list of
two strings.

## Main definitions

* `Value.keyed`: entries with string keys.
* `Value.isTree`: whether a value is a tree.
* `Value.listForm`: the tree with attribute accesses in list form.

## Main results

* `Value.isTree_map_iff`: the mappings among the trees.
* `Value.ofFields_eq_map`: fields with different keys are written side by side.
-/

namespace StackScript.Value

open Text

/-! ### Mappings with string keys -/

/-- Fields as entries of a mapping. -/
def keyed (fields : List (String × Value)) : List (Value × Value) :=
  fields.map fun field => (.str field.1, field.2)

@[simp] theorem keyed_nil : keyed [] = [] := rfl

@[simp] theorem keyed_cons (field : String × Value) (fields : List (String × Value)) :
    keyed (field :: fields) = (.str field.1, field.2) :: keyed fields := rfl

@[simp] theorem keyed_append (fields more : List (String × Value)) :
    keyed (fields ++ more) = keyed fields ++ keyed more := List.map_append ..

theorem keyed_injective : Function.Injective keyed := by
  refine List.map_injective_iff.2 fun field field' h => ?_
  simp only [Prod.mk.injEq, scalar.injEq, Scalar.str.injEq] at h
  exact Prod.ext h.1 h.2

/-- Fields that correspond have the same keys. -/
theorem map_fst_eq_of_forall₂ {α β : Type} {l : List (String × α)} {l' : List (String × β)}
    (h : List.Forall₂ (fun a b => a.1 = b.1) l l') : l.map Prod.fst = l'.map Prod.fst := by
  rw [← List.forall₂_eq_eq_eq, List.forall₂_map_left_iff, List.forall₂_map_right_iff]
  exact h

/-- The value of a string key among entries with string keys. -/
theorem lookup_keyed (key : String) (fields : List (String × Value)) :
    lookup key (keyed fields) = fields.lookup key := by
  induction fields with
  | nil => rfl
  | cons field fields ih =>
    obtain ⟨first, v⟩ := field
    by_cases h : first = key
    · simp [lookup, h]
    · simp [lookup, List.lookup_cons, h, ih, beq_eq_false_iff_ne.2 (Ne.symm h)]

private theorem sameKey_str (s t : String) : sameKey (.str s) (.str t) = (s == t) := by
  simp [sameKey, sameScalar]

private theorem put_keyed {fields : List (String × Value)} {key : String} (value : Value)
    (h : key ∉ fields.map Prod.fst) :
    put (keyed fields) (.str key) value = keyed (fields ++ [(key, value)]) := by
  induction fields with
  | nil => rfl
  | cons field fields ih =>
    simp only [List.map_cons, List.mem_cons, not_or] at h
    simp only [keyed_cons, List.cons_append, put, sameKey_str, beq_iff_eq, if_neg (Ne.symm h.1),
      ih h.2]

private theorem foldl_put_keyed (done rest : List (String × Value))
    (h : ((done ++ rest).map Prod.fst).Nodup) :
    (keyed rest).foldl (fun done entry => put done entry.1 entry.2) (keyed done) =
      keyed (done ++ rest) := by
  induction rest generalizing done with
  | nil => simp
  | cons field rest ih =>
    have hfield : field.1 ∉ done.map Prod.fst := by
      intro hmem
      rw [List.map_append, List.nodup_append] at h
      exact h.2.2 _ hmem _ (by simp) rfl
    rw [keyed_cons, List.foldl_cons, put_keyed _ hfield, ih (done ++ [field]) (by simpa using h)]
    simp

/-- Fields with different keys are written side by side. -/
theorem ofFields_eq_map {fields : List (String × Value)} (h : (fields.map Prod.fst).Nodup) :
    ofFields fields = .map (keyed fields) :=
  congrArg Value.map (foldl_put_keyed [] fields h)

/-! ### Trees -/

/-- The keys of a mapping, if all of them are strings. -/
def stringKeys? : List (Value × Value) → Option (List String)
  | [] => some []
  | (.str key, _) :: rest => (stringKeys? rest).map (key :: ·)
  | _ :: _ => none

mutual

/-- Whether a value is a tree of scalars, lists and mappings whose keys are different strings. -/
def isTree : Value → Bool
  | .scalar _ => true
  | .list items => areTrees items
  | .map entries =>
    (stringKeys? entries).any (fun keys => decide keys.Nodup) && entriesAreTrees entries
  | _ => false

/-- Whether `isTree` holds of every item. -/
def areTrees : List Value → Bool
  | [] => true
  | item :: rest => isTree item && areTrees rest

/-- Whether `isTree` holds of the value of every entry. -/
def entriesAreTrees : List (Value × Value) → Bool
  | [] => true
  | (_, value) :: rest => isTree value && entriesAreTrees rest

end

@[simp] theorem isTree_scalar (s : Scalar) : isTree (.scalar s) = true := by simp [isTree]

@[simp] theorem isTree_list_iff {items : List Value} :
    isTree (.list items) = true ↔ ∀ item ∈ items, isTree item = true := by
  rw [isTree]
  induction items with
  | nil => simp [areTrees]
  | cons item items ih => simp [areTrees, ih]

private theorem entriesAreTrees_iff {entries : List (Value × Value)} :
    entriesAreTrees entries = true ↔ ∀ entry ∈ entries, isTree entry.2 = true := by
  induction entries with
  | nil => simp [entriesAreTrees]
  | cons entry entries ih => simp [entriesAreTrees, ih]

theorem stringKeys?_eq_some_iff {entries : List (Value × Value)} {keys : List String} :
    stringKeys? entries = some keys ↔
      ∃ fields, entries = keyed fields ∧ fields.map Prod.fst = keys := by
  constructor
  · intro h
    induction entries generalizing keys with
    | nil =>
      cases h
      exact ⟨[], rfl, rfl⟩
    | cons entry entries ih =>
      obtain ⟨key, value⟩ := entry
      unfold stringKeys? at h
      split at h
      · simp_all
      next hk =>
        cases hk
        obtain ⟨keys', hkeys, rfl⟩ := Option.map_eq_some_iff.1 h
        obtain ⟨fields, rfl, rfl⟩ := ih hkeys
        exact ⟨(_, value) :: fields, rfl, rfl⟩
      · cases h
  · rintro ⟨fields, rfl, rfl⟩
    induction fields with
    | nil => rfl
    | cons field fields ih => simp [stringKeys?, ih]

/-- A mapping is a tree if its keys are different strings and its values are trees. -/
theorem isTree_map_iff {entries : List (Value × Value)} :
    isTree (.map entries) = true ↔ ∃ fields, entries = keyed fields ∧
      (fields.map Prod.fst).Nodup ∧ ∀ field ∈ fields, isTree field.2 = true := by
  simp only [isTree, Bool.and_eq_true, entriesAreTrees_iff, Option.any_eq_true,
    stringKeys?_eq_some_iff, decide_eq_true_eq]
  constructor
  · rintro ⟨⟨keys, ⟨fields, rfl, rfl⟩, hnodup⟩, htrees⟩
    exact ⟨fields, rfl, hnodup, fun field hf => htrees _ (List.mem_map_of_mem hf)⟩
  · rintro ⟨fields, rfl, hnodup, htrees⟩
    refine ⟨⟨_, ⟨fields, rfl, rfl⟩, hnodup⟩, fun entry he => ?_⟩
    obtain ⟨field, hf, rfl⟩ := List.mem_map.1 he
    exact htrees field hf

theorem isTree_keyed_iff {fields : List (String × Value)} :
    isTree (.map (keyed fields)) = true ↔
      (fields.map Prod.fst).Nodup ∧ ∀ field ∈ fields, isTree field.2 = true := by
  rw [isTree_map_iff]
  constructor
  · rintro ⟨fields', h, hfields⟩
    rwa [keyed_injective h]
  · exact fun h => ⟨fields, rfl, h⟩

/-- A tree does not contain itself. -/
theorem unfold_eq_self {v : Value} (h : v.isTree = true) : v.unfold = v := by
  cases v <;> first | rfl | simp [isTree] at h

/-! ### Attribute accesses in list form -/

/-- The two parts of an attribute that is written in one string, divided at its first dot. -/
def attributeParts? (text : String) : Option (List Value) :=
  match splitAtChar '.' text.toList with
  | base :: first :: more =>
    some [.str (String.ofList base), .str (String.ofList (List.intercalate ['.'] (first :: more)))]
  | _ => none

/-- The list form of a mapping that accesses an attribute by one string. -/
def attributeList? : List (Value × Value) → Option Value
  | [(.str key, .str text)] =>
    if key = "Fn::GetAtt" then (attributeParts? text).map fun parts => single key (.list parts)
    else none
  | _ => none

mutual

/-- The value with every attribute access by one string in list form. -/
def listForm : Value → Value
  | .list items => .list (listForms items)
  | .map entries => (attributeList? entries).getD (.map (entryListForms entries))
  | value => value

/-- `listForm` of every item. -/
def listForms : List Value → List Value
  | [] => []
  | item :: rest => listForm item :: listForms rest

/-- `listForm` of the value of every entry. -/
def entryListForms : List (Value × Value) → List (Value × Value)
  | [] => []
  | (key, value) :: rest => (key, listForm value) :: entryListForms rest

end

/-- Fields with every value in list form. -/
def fieldListForms (fields : List (String × Value)) : List (String × Value) :=
  fields.map fun field => (field.1, field.2.listForm)

@[simp] theorem listForm_scalar (s : Scalar) : listForm (.scalar s) = .scalar s := by
  simp [listForm]

@[simp] theorem listForm_list (items : List Value) :
    listForm (.list items) = .list (items.map listForm) := by
  rw [listForm]
  congr 1
  induction items with
  | nil => rfl
  | cons item items ih => simp [listForms, ih]

theorem listForm_keyed {fields : List (String × Value)} (h : attributeList? (keyed fields) = none) :
    listForm (.map (keyed fields)) = .map (keyed (fieldListForms fields)) := by
  rw [listForm, h, Option.getD_none]
  congr 1
  clear h
  induction fields with
  | nil => rfl
  | cons field fields ih => simp [entryListForms, fieldListForms, ih]

theorem listForm_map_ne_str (entries : List (Value × Value)) (s : String) :
    listForm (.map entries) ≠ .str s := by
  rw [listForm]
  cases h : attributeList? entries with
  | none => simp
  | some v =>
    unfold attributeList? at h
    split at h
    · split_ifs at h
      obtain ⟨parts, -, rfl⟩ := Option.map_eq_some_iff.1 h
      simp [single]
    · cases h

end StackScript.Value
