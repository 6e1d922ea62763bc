import StackScript.Decompile.Template
import StackScript.Proofs.Decompile.Inverse

/-!
# Normal forms of documents

A script has places for the known sections of a document only, and for the known keys of a resource.
The normal form of a document is what the script of the document can say: the sections in their
fixed order, resources reduced to their known keys, and attribute accesses in list form.

Some places of a script hold plain names: the first argument of `If` and of `FindInMap`, policies,
and the names of other declarations in `DependsOn` and `Condition`. A bare name in such a place is a
string, so a document with a reference there does not come back from its script.

## Main definitions

* `Value.normalForm`: the normal form of a document.
* `Value.isReference`: whether a value is a reference to a name.
* `Value.HasPlainNames`: no reference stands where a script has a plain name.

## Main results

* `Value.misreads_eq_false`: without such references nothing is misread.
* `Value.unwrapReference_listForm`: a value that lists no reference is its own list of names.
-/

namespace StackScript

namespace Value

/-! ### Fields of mappings -/

/-- The fields of a mapping; there are none in other values. -/
def fields : Value → List (String × Value)
  | .map entries => entries.filterMap fun
    | (.str key, v) => some (key, v)
    | _ => none
  | _ => []

/-- The value of a field. -/
def field? (v : Value) (key : String) : Option Value := v.fields.lookup key

@[simp] theorem fields_keyed (written : List (String × Value)) :
    fields (.map (keyed written)) = written := by
  rw [fields, keyed, List.filterMap_map]
  exact List.filterMap_some

@[simp] theorem field?_keyed (written : List (String × Value)) (key : String) :
    field? (.map (keyed written)) key = written.lookup key := by
  rw [field?, fields_keyed]

/-- A mapping that is a tree consists of its fields. -/
theorem keyed_fields {entries : List (Value × Value)} (h : isTree (.map entries) = true) :
    keyed (fields (.map entries)) = entries := by
  obtain ⟨written, rfl, -⟩ := isTree_map_iff.1 h
  rw [fields_keyed]

theorem lookup_eq_field? {entries : List (Value × Value)} (h : isTree (.map entries) = true)
    (key : String) : lookup key entries = field? (.map entries) key := by
  rw [← keyed_fields h, lookup_keyed, field?_keyed]

/-- The fields of a tree have different keys, and are trees. -/
theorem isTree_fields {v : Value} (h : v.isTree = true) :
    (v.fields.map Prod.fst).Nodup ∧ ∀ field ∈ v.fields, field.2.isTree = true := by
  cases v with
  | map entries => exact isTree_keyed_iff.1 ((keyed_fields h).symm ▸ h)
  | _ => simp [fields]

theorem mem_fields_of_field? {v w : Value} {key : String} (h : v.field? key = some w) :
    (key, w) ∈ v.fields := by
  rw [field?, List.lookup_eq_some_iff] at h
  obtain ⟨before, after, hfields, -⟩ := h
  simp [hfields]

theorem isTree_field? {v w : Value} {key : String} (hv : v.isTree = true)
    (h : v.field? key = some w) : w.isTree = true :=
  (isTree_fields hv).2 _ (mem_fields_of_field? h)

/-! ### Normal forms -/

/-- The mapping with the value of each field in list form. A body is no value: it stays a mapping
also where it has the form of an attribute access. -/
def bodyForm (v : Value) : Value := .map (keyed (fieldListForms v.fields))

/-- The normal form of what stands under a key of a resource. -/
def partForm (key : String) (v : Value) : Value :=
  if key = "Properties" then v.bodyForm else v.listForm

/-- The normal form of a resource: its known keys in their fixed order. -/
def resourceForm (v : Value) : Value :=
  .map (keyed (Decompile.resourceKeys.filterMap fun key =>
    (v.field? key).map fun part => (key, part.partForm key)))

/-- The normal form of a declaration. -/
def declarationForm (kind : DeclKind) (v : Value) : Value :=
  match kind with
  | .resource => v.resourceForm
  | .condition => v.listForm
  | _ => v.bodyForm

/-- The declarations of a kind in a document with their names; there are none in a section that is
absent or null. -/
def declarations (document : Value) (kind : DeclKind) : List (String × Value) :=
  ((document.field? kind.sectionKey).getD .null).fields

/-- The declarations of a tree have different names, and are trees. -/
theorem isTree_declarations {document : Value} (h : document.isTree = true) (kind : DeclKind) :
    ((document.declarations kind).map Prod.fst).Nodup ∧
      ∀ declaration ∈ document.declarations kind, declaration.2.isTree = true := by
  rw [declarations]
  cases hfield : document.field? kind.sectionKey with
  | none => simp [fields]
  | some v => exact isTree_fields (isTree_field? h hfield)

/-- The normal form of a section of declarations. A section without declarations is left out,
unless it is that of the resources. -/
def declarationsForm? (document : Value) (kind : DeclKind) : Option Value :=
  if (document.declarations kind).isEmpty ∧ kind ≠ .resource then none
  else some (.map (keyed ((document.declarations kind).map fun declaration =>
    (declaration.1, declaration.2.declarationForm kind))))

/-- The normal form of the value of a header. -/
def headerForm : Value → Value
  | .map entries => bodyForm (.map entries)
  | v => v

/-- The normal form of a section of a document. -/
def sectionForm? (document : Value) (key : String) : Option Value :=
  match DeclKind.ofSectionKey? key with
  | some kind => document.declarationsForm? kind
  | none => (document.field? key).map headerForm

/-- The normal form of a document: its known sections in their fixed order. -/
def normalForm (document : Value) : Value :=
  .map (keyed (sectionOrder.filterMap fun key =>
    (document.sectionForm? key).map fun v => (key, v)))

/-! ### Documents by entries -/

end Value

/-- The value of an entry. -/
def Entry.value : Entry → Value
  | .header _ v => v
  | .declaration _ _ v => v

namespace Value

/-- The headers of a document. -/
def headers (document : Value) : List (Header × Value) :=
  Header.all.filterMap fun kind => (document.field? kind.keyword).map fun v => (kind, v)

/-- The headers and the declarations of a document, in the order in which a script has them. -/
def toEntries (document : Value) : List Entry :=
  document.headers.map (fun header => .header header.1 header.2) ++
    Decompile.declarationOrder.flatMap fun kind =>
      (document.declarations kind).map fun declaration =>
        .declaration kind declaration.1 declaration.2

theorem mem_toEntries_header {document v : Value} {kind : Header} :
    .header kind v ∈ document.toEntries ↔ document.field? kind.keyword = some v := by
  have hall : kind ∈ Header.all := by cases kind <;> decide
  simp [toEntries, headers, hall]

theorem mem_toEntries_declaration {document v : Value} {kind : DeclKind} {name : String} :
    .declaration kind name v ∈ document.toEntries ↔ (name, v) ∈ document.declarations kind := by
  have hall : kind ∈ Decompile.declarationOrder := by cases kind <;> decide
  simp [toEntries, hall]

theorem isTree_of_mem_toEntries {document : Value} (h : document.isTree = true) {entry : Entry}
    (hentry : entry ∈ document.toEntries) : entry.value.isTree = true := by
  cases entry with
  | header kind v => exact isTree_field? h (mem_toEntries_header.1 hentry)
  | declaration kind name v =>
    exact (isTree_declarations h kind).2 _ (mem_toEntries_declaration.1 hentry)

/-! ### References in places for plain names -/

/-- Whether a value is a reference to a name. -/
def isReference : Value → Bool
  | .map [(.str key, .str _)] => key == "Ref" || key == "Condition"
  | _ => false

mutual

/-- Whether a reference stands in a place for plain names among the arguments of a call. -/
def misplaces : Value → Bool
  | .list items => anyMisplaces items
  | .map entries => (plainPlace? entries).any isReference || anyEntryMisplaces entries
  | _ => false

/-- Whether `misplaces` holds of an item. -/
def anyMisplaces : List Value → Bool
  | [] => false
  | item :: rest => misplaces item || anyMisplaces rest

/-- Whether `misplaces` holds of the value of an entry. -/
def anyEntryMisplaces : List (Value × Value) → Bool
  | [] => false
  | (_, value) :: rest => misplaces value || anyEntryMisplaces rest

end

mutual

/-- Whether a value is a reference, or a list that holds one, maybe in lists again. -/
def listsReference : Value → Bool
  | .list items => anyListsReference items
  | v => v.isReference

/-- Whether `listsReference` holds of an item. -/
def anyListsReference : List Value → Bool
  | [] => false
  | item :: rest => listsReference item || anyListsReference rest

end

/-- No reference stands where a script has a plain name: neither among the arguments of a call, nor
as a policy, nor among the names of other declarations. -/
structure HasPlainNames (document : Value) : Prop where
  arguments : document.misplaces = false
  policies : ∀ resource ∈ document.declarations .resource,
    ∀ key ∈ ["DeletionPolicy", "UpdateReplacePolicy"],
      (resource.2.field? key).any isReference = false
  names : ∀ resource ∈ document.declarations .resource,
    ∀ key ∈ ["DependsOn", "Condition"], (resource.2.field? key).any listsReference = false

/-- What is read as a bare name is a reference. -/
theorem isReference_of_readsAsName {symbols : SymbolTable} {v : Value}
    (h : v.readsAsName symbols = true) : v.isReference = true := by
  unfold readsAsName at h
  split at h
  · split_ifs at h with href hcondition
    · simp [isReference, href]
    · simp [isReference, hcondition]
  · cases h

section Misreading

variable (symbols : SymbolTable)

mutual

/-- Nothing is misread in a value where no reference is misplaced. -/
theorem misreads_eq_false (v : Value) (h : v.misplaces = false) : v.misreads symbols = false := by
  cases v with
  | list items => exact anyMisreads_eq_false items h
  | map entries =>
    rw [misplaces, Bool.or_eq_false_iff] at h
    rw [misreads, Bool.or_eq_false_iff]
    refine ⟨?_, anyEntryMisreads_eq_false entries h.2⟩
    cases hplace : plainPlace? entries with
    | none => rfl
    | some arg =>
      rw [hplace, Option.any_some] at h
      rw [Option.any_some, Bool.eq_false_iff]
      exact fun hreads => Bool.eq_false_iff.1 h.1 (isReference_of_readsAsName hreads)
  | _ => simp [misreads]

private theorem anyMisreads_eq_false (items : List Value) (h : anyMisplaces items = false) :
    anyMisreads symbols items = false := by
  cases items with
  | nil => rfl
  | cons item rest =>
    rw [anyMisplaces, Bool.or_eq_false_iff] at h
    rw [anyMisreads, misreads_eq_false item h.1, anyMisreads_eq_false rest h.2]
    rfl

private theorem anyEntryMisreads_eq_false (entries : List (Value × Value))
    (h : anyEntryMisplaces entries = false) : anyEntryMisreads symbols entries = false := by
  cases entries with
  | nil => rfl
  | cons entry rest =>
    obtain ⟨key, value⟩ := entry
    rw [anyEntryMisplaces, Bool.or_eq_false_iff] at h
    rw [anyEntryMisreads, misreads_eq_false value h.1, anyEntryMisreads_eq_false rest h.2]
    rfl

end

end Misreading

/-- Nothing is misplaced in the fields of a value where nothing is. -/
theorem misplaces_of_mem_fields {v : Value} (h : v.misplaces = false) :
    ∀ field ∈ v.fields, field.2.misplaces = false := by
  have hentries (entries : List (Value × Value)) (h : anyEntryMisplaces entries = false) :
      ∀ entry ∈ entries, entry.2.misplaces = false := by
    induction entries with
    | nil => simp
    | cons entry rest ih =>
      rw [anyEntryMisplaces, Bool.or_eq_false_iff] at h
      exact List.forall_mem_cons.2 ⟨h.1, ih h.2⟩
  cases v with
  | map entries =>
    rw [misplaces, Bool.or_eq_false_iff] at h
    intro field hf
    obtain ⟨entry, hmem, hfield⟩ := List.mem_filterMap.1 hf
    split at hfield
    · cases hfield
      exact hentries entries h.2 _ hmem
    · cases hfield
  | _ => simp [fields]

theorem misplaces_of_mem_toEntries {document : Value} (h : document.misplaces = false)
    {entry : Entry} (hentry : entry ∈ document.toEntries) : entry.value.misplaces = false := by
  have hfield {v w : Value} {key : String} (h : v.misplaces = false) (hw : v.field? key = some w) :
      w.misplaces = false :=
    misplaces_of_mem_fields h _ (mem_fields_of_field? hw)
  cases entry with
  | header kind v => exact hfield h (mem_toEntries_header.1 hentry)
  | declaration kind name v =>
    have hmem := mem_toEntries_declaration.1 hentry
    rw [declarations] at hmem
    cases hsection : document.field? kind.sectionKey with
    | none => simp [hsection, fields] at hmem
    | some w =>
      rw [hsection] at hmem
      exact misplaces_of_mem_fields (hfield h hsection) _ hmem

/-! ### Lists of names -/

theorem unwrapReference_list (items : List Value) :
    unwrapReference (.list items) = .list (items.map unwrapReference) := by
  rw [unwrapReference]
  congr 1
  induction items with
  | nil => rfl
  | cons item items ih => rw [unwrapReferences, ih, List.map_cons]

/-- Only references are unwrapped. -/
private theorem unwrapReference_map {entries : List (Value × Value)}
    (h : isReference (.map entries) = false) :
    unwrapReference (.map entries) = .map entries := by
  unfold unwrapReference
  split
  · simp_all
  next key name hentries =>
    cases hentries
    simp only [isReference, Bool.or_eq_false_iff, beq_eq_false_iff_ne] at h
    exact if_neg (by simpa using h)
  · rfl

theorem eq_str_of_listForm {v : Value} {s : String} (h : v.listForm = .str s) :
    v = .str s := by
  cases v with
  | map entries => exact absurd h (listForm_map_ne_str entries s)
  | list items => simp at h
  | scalar => simpa using h
  | _ => simp [listForm] at h

/-- The list form of a mapping that is no reference is none either. -/
private theorem exists_listForm_map {entries : List (Value × Value)}
    (htree : isTree (.map entries) = true) (h : isReference (.map entries) = false) :
    ∃ entries', listForm (.map entries) = .map entries' ∧ isReference (.map entries') = false := by
  obtain ⟨written, rfl, -⟩ := isTree_map_iff.1 htree
  cases hform : attributeList? (keyed written) with
  | none =>
    refine ⟨_, listForm_keyed hform, ?_⟩
    unfold isReference
    split
    next key x hentries =>
      rw [map.injEq] at hentries
      have hfields : fieldListForms written = [(key, .str x)] := keyed_injective hentries
      obtain ⟨field, rfl, hfield⟩ := List.map_eq_singleton_iff.1 hfields
      rw [Prod.mk.injEq] at hfield
      obtain ⟨rfl, hx⟩ := hfield
      simpa [eq_str_of_listForm hx, isReference] using h
    · rfl
  | some v =>
    unfold attributeList? at hform
    split at hform
    next key text hentries =>
      split_ifs at hform with hkey
      obtain ⟨parts, hparts, rfl⟩ := Option.map_eq_some_iff.1 hform
      refine ⟨[(.str key, .list parts)], ?_, rfl⟩
      simp [hentries, listForm, attributeList?, hkey, hparts, single]
    · cases hform

mutual

/-- A tree that lists no reference is its own list of names. -/
theorem unwrapReference_listForm (v : Value) (htree : v.isTree = true)
    (h : v.listsReference = false) : v.listForm.unwrapReference = v.listForm := by
  cases v with
  | list items =>
    rw [listForm_list, unwrapReference_list,
      map_unwrapReference_listForm items (isTree_list_iff.1 htree) h]
  | map entries =>
    obtain ⟨entries', hform, href⟩ := exists_listForm_map htree h
    rw [hform, unwrapReference_map href]
  | scalar s =>
    rw [listForm_scalar]
    rfl
  | _ => simp [isTree] at htree

private theorem map_unwrapReference_listForm (items : List Value)
    (htrees : ∀ item ∈ items, item.isTree = true) (h : anyListsReference items = false) :
    (items.map listForm).map unwrapReference = items.map listForm := by
  cases items with
  | nil => rfl
  | cons item rest =>
    rw [List.forall_mem_cons] at htrees
    rw [anyListsReference, Bool.or_eq_false_iff] at h
    rw [List.map_cons, List.map_cons, unwrapReference_listForm item htrees.1 h.1,
      map_unwrapReference_listForm rest htrees.2 h.2]

end

/-! ### Normal forms by entries -/

end Value

/-- The normal form of an entry of a document. -/
def Entry.normalForm : Entry → Entry
  | .header kind v => .header kind v.headerForm
  | .declaration kind name v => .declaration kind name (v.declarationForm kind)

namespace Value

/-- What a partial function gives for one of several arguments. -/
private theorem filterMap_select {α β : Type} [DecidableEq α] (f : α → Option β) {l : List α}
    (hl : l.Nodup) (a : α) :
    ((l.filterMap fun a => (f a).map fun b => (a, b)).filterMap fun p =>
      if p.1 = a then some p.2 else none) = if a ∈ l then (f a).toList else [] := by
  induction l with
  | nil => rfl
  | cons b l ih =>
    rw [List.nodup_cons] at hl
    by_cases hb : b = a
    · subst hb
      cases hf : f b <;> simp [hf, ih hl.2, hl.1]
    · cases hf : f b <;> simp [hf, hb, Ne.symm hb, ih hl.2]

theorem headerValue?_normalForm (document : Value) (kind : Header) :
    headerValue? (document.toEntries.map Entry.normalForm) kind =
      (document.field? kind.keyword).map headerForm := by
  have hall : Header.all.Nodup ∧ kind ∈ Header.all := by cases kind <;> decide
  have hselect : (document.headers.filterMap fun header =>
      if header.1 = kind then some header.2.headerForm else none) =
        ((document.field? kind.keyword).map headerForm).toList := by
    have hvalues := filterMap_select (fun kind => document.field? kind.keyword) hall.1 kind
    rw [if_pos hall.2] at hvalues
    rw [Option.toList_map, ← hvalues, List.map_filterMap, headers]
    simp only [apply_ite, Option.map_some, Option.map_none]
  rw [headerValue?, toEntries, List.map_append, List.filterMap_append, List.map_flatMap,
    List.filterMap_flatMap]
  simp only [List.map_map, List.filterMap_map, Function.comp_def, Entry.normalForm, hselect]
  cases document.field? kind.keyword <;> simp [Decompile.declarationOrder]

theorem declaredFields_normalForm (document : Value) (kind : DeclKind) :
    declaredFields (document.toEntries.map Entry.normalForm) kind =
      (document.declarations kind).map fun declaration =>
        (declaration.1, declaration.2.declarationForm kind) := by
  rw [toEntries, List.map_append, declaredFields, List.filterMap_append, List.map_flatMap,
    List.filterMap_flatMap]
  simp only [List.map_map, List.filterMap_map, Function.comp_def, Entry.normalForm]
  cases kind <;> simp [Decompile.declarationOrder]

/-- The entries of a document in normal form add up to its normal form. -/
theorem documentOfEntries_normalForm {document : Value} (h : document.isTree = true) :
    documentOfEntries (document.toEntries.map Entry.normalForm) = document.normalForm := by
  have hsection (kind : DeclKind) :
      sectionValue? (document.toEntries.map Entry.normalForm) kind =
        document.declarationsForm? kind := by
    have hnodup : (((document.declarations kind).map fun declaration =>
        (declaration.1, declaration.2.declarationForm kind)).map Prod.fst).Nodup := by
      rw [List.map_map]
      exact (isTree_declarations h kind).1
    rw [sectionValue?, declaredFields_normalForm, declarationsForm?]
    cases hd : document.declarations kind with
    | nil => by_cases hk : kind = .resource <;> simp [hk]
    | cons declaration rest =>
      rw [hd] at hnodup
      simpa using ofFields_eq_map hnodup
  have hkeys : ∀ key ∈ sectionOrder,
      documentSection? (document.toEntries.map Entry.normalForm) key =
        document.sectionForm? key := by
    intro key hkey
    rw [sectionOrder, List.mem_append, List.mem_map, List.mem_map] at hkey
    rcases hkey with ⟨kind, -, rfl⟩ | ⟨kind, -, rfl⟩
    · trans headerValue? (document.toEntries.map Entry.normalForm) kind
      · cases kind <;> rfl
      · rw [headerValue?_normalForm]
        cases kind <;> rfl
    · trans sectionValue? (document.toEntries.map Entry.normalForm) kind
      · cases kind <;> rfl
      · rw [hsection]
        cases kind <;> rfl
  rw [documentOfEntries, normalForm, keyed, List.map_filterMap]
  congr 1
  refine List.filterMap_congr fun key hkey => ?_
  rw [hkeys key hkey, Option.map_map]
  rfl

end Value

end StackScript
