import StackScript.Decompile.Template
import StackScript.Proofs.Decompile.Reading

/-!
# What documents are read as

Reading a document gives one statement for each header it has, and one for each entry of its
sections of declarations. As for values, this is described by relations, so that what holds of the
templates of documents is proved by cases on the forms of their parts. They cover all documents,
also those that are no trees.

## Main definitions

* `Decompile.FieldsRead`: the properties that the entries of a mapping are read as.
* `Decompile.ModifierReads`, `Decompile.DeclarationReads`, `Decompile.HeaderReads`: the forms of the
  parts of a template.
* `Decompile.SectionReads`, `Decompile.TemplateReads`: sections and templates.

## Main results

* `Decompile.templateReads_of_gives`: what the template of a document is made of.
-/

namespace StackScript.Decompile

variable {scope : Scope}

/-! ### The parts of a template -/

/-- What a value is read as with no more levels than the limit. -/
def ValueReads (scope : Scope) (v : Value) (e : Expr) : Prop :=
  ∃ levels ≤ scope.limit, ReadsAs scope.symbols levels v e

/-- The properties that the entries of a mapping are read as. -/
def FieldsRead (scope : Scope) (entries : List (Value × Value)) (fields : List (String × Expr)) :
    Prop :=
  List.Forall₂ (fun entry field => entry.1.text? = some field.1 ∧ ValueReads scope entry.2 field.2)
    entries fields

/-- What the value of a modifier is read as: an allowed policy or a declared name may be bare. -/
inductive ModifierReads (scope : Scope) (modifier : String) (v : Value) : Expr → Prop
  | policy {s : String} (hv : v.unfold = .str s)
      (hs : ((policyValues? modifier).getD []).contains s = true) :
      ModifierReads scope modifier v (.name s)
  | declared {s : String} (hr : referenceModifiers.contains modifier = true)
      (hv : v.unfold = .str s) : ModifierReads scope modifier v (declaredName scope.symbols s)
  | names {items : List Value} {names : List String}
      (hr : referenceModifiers.contains modifier = true) (hv : v.unfold = .list items)
      (hn : allStrings? items = some names) :
      ModifierReads scope modifier v (.array (names.map (declaredName scope.symbols)))
  | value {e : Expr} (h : ValueReads scope v e) : ModifierReads scope modifier v e

/-- The modifiers that the entries of a resource give, in their fixed order. -/
def presentModifiers (entries : List (Value × Value)) : List (String × Value) :=
  modifierNames.filterMap fun name => (Value.lookup name entries).map fun v => (name, v)

/-- What a partial function is defined for, with its values there. -/
theorem map_fst_filterMap {α β : Type} (f : α → Option β) (l : List α) :
    (l.filterMap fun a => (f a).map fun b => (a, b)).map Prod.fst =
      l.filter fun a => (f a).isSome := by
  induction l with
  | nil => rfl
  | cons a l ih =>
    cases h : f a with
    | none => simpa [List.filterMap_cons, List.filter_cons, h] using ih
    | some b => simpa [List.filterMap_cons, List.filter_cons, h] using ih

/-- What a partial function gives is found again under its argument. -/
theorem lookup_filterMap {β : Type} (f : String → Option β) (keys : List String) (key : String) :
    (keys.filterMap fun key => (f key).map fun b => (key, b)).lookup key =
      if key ∈ keys then f key else none := by
  induction keys with
  | nil => rfl
  | cons other keys ih =>
    by_cases hkey : key = other
    · subst hkey
      cases hf : f key with
      | none => simp [hf, ih]
      | some b => simp [hf]
    · cases hf : f other with
      | none => simp [hf, ih, hkey]
      | some b => simp [hf, ih, hkey, List.lookup_cons, beq_eq_false_iff_ne.2 hkey]

theorem map_fst_presentModifiers (entries : List (Value × Value)) :
    (presentModifiers entries).map Prod.fst =
      modifierNames.filter fun name => (Value.lookup name entries).isSome :=
  map_fst_filterMap ..

theorem mem_presentModifiers {entries : List (Value × Value)} {p : String × Value}
    (h : p ∈ presentModifiers entries) :
    p.1 ∈ modifierNames ∧ Value.lookup p.1 entries = some p.2 := by
  obtain ⟨name, hname, hp⟩ := List.mem_filterMap.1 h
  obtain ⟨v, hv, rfl⟩ := Option.map_eq_some_iff.1 hp
  exact ⟨hname, hv⟩

/-- What an entry of a section is read as. -/
inductive DeclarationReads (scope : Scope) : DeclKind → Value → Expr → Prop
  | condition {v : Value} {e : Expr} (h : ValueReads scope v e) :
      DeclarationReads scope .condition v (.condition e)
  | body {kind : BodyKind} {v : Value} {entries : List (Value × Value)}
      {fields : List (String × Expr)} (hv : v.unfold = .map entries)
      (hf : FieldsRead scope entries fields) :
      DeclarationReads scope (.ofBody kind) v (.body kind fields)
  | resource {v : Value} {entries : List (Value × Value)} {type : String}
      {properties : Option (List (String × Expr))} {modifiers : List (String × Expr)}
      (hv : v.unfold = .map entries) (ht : Value.lookup "Type" entries = some (.str type))
      (hne : type ≠ "")
      (hp : Option.Rel
        (fun v fields => ∃ inner, v.unfold = .map inner ∧ FieldsRead scope inner fields)
        (Value.lookup "Properties" entries) properties)
      (hm : List.Forall₂ (fun p m => p.1 = m.1 ∧ ModifierReads scope p.1 p.2 m.2)
        (presentModifiers entries) modifiers) :
      DeclarationReads scope .resource v (.resource type properties modifiers)

/-- What the value of a header is read as. -/
inductive HeaderReads (scope : Scope) : Header → Value → Expr → Prop
  | string {kind : Header} {v : Value} {s : String}
      (hk : kind ∈ [Header.formatVersion, .description, .transform]) (hv : v.unfold = .str s) :
      HeaderReads scope kind v (.literal (.str s))
  | strings {v : Value} {items : List Value} {names : List String} (hv : v.unfold = .list items)
      (hn : allStrings? items = some names) :
      HeaderReads scope .transform v (.array (names.map fun name => .literal (.str name)))
  | mapping {kind : Header} {v : Value} {entries : List (Value × Value)}
      {fields : List (String × Expr)} (hk : kind ∈ [Header.transform, .metadata, .globals])
      (hv : v.unfold = .map entries) (hf : FieldsRead scope entries fields) :
      HeaderReads scope kind v (.object fields)

/-- The headers that a document gives, in their order. -/
def presentHeaders (entries : List (Value × Value)) : List (Header × Value) :=
  Header.all.filterMap fun kind => (Value.lookup kind.keyword entries).map fun v => (kind, v)

theorem map_fst_presentHeaders (entries : List (Value × Value)) :
    (presentHeaders entries).map Prod.fst =
      Header.all.filter fun kind => (Value.lookup kind.keyword entries).isSome :=
  map_fst_filterMap ..

/-- The entries of a section, with the texts of their keys as names. -/
inductive SectionEntries (scope : Scope) (kind : DeclKind) : List (String × Value) → Prop
  | absent (h : Value.lookup kind.sectionKey scope.entries = none) : SectionEntries scope kind []
  | null {v : Value} (h : Value.lookup kind.sectionKey scope.entries = some v)
      (hv : v.unfold = .null) : SectionEntries scope kind []
  | mapping {v : Value} {entries : List (Value × Value)}
      (h : Value.lookup kind.sectionKey scope.entries = some v) (hv : v.unfold = .map entries) :
      SectionEntries scope kind (entries.map fun entry => (entry.1.text, entry.2))

/-- The statements that the entries of a section are read as. -/
def SectionReads (scope : Scope) (kind : DeclKind) (statements : List Statement) : Prop :=
  ∃ entries, SectionEntries scope kind entries ∧
    List.Forall₂ (fun entry st => ∃ e, st = .assign entry.1 e 0 ∧
      DeclarationReads scope kind entry.2 e) entries statements

/-- What a document is read as. -/
def TemplateReads (scope : Scope) (t : Template) : Prop :=
  ∃ headers sections, t.statements = headers ++ sections.flatten ∧
    List.Forall₂ (fun p st => ∃ e, st = .header p.1 e ∧ HeaderReads scope p.1 p.2 e)
      (presentHeaders scope.entries) headers ∧
    List.Forall₂ (SectionReads scope) declarationOrder sections

/-! ### Every result has one of these forms -/

private theorem fieldsRead_of_gives {entries : List (Value × Value)}
    {fs : List (String × Expr)} (h : Gives (object scope entries) fs) :
    FieldsRead scope entries fs :=
  (forall₂_of_gives_fields h).imp fun _ _ hf => ⟨hf.1, exists_readsAs_of_gives hf.2⟩

private theorem body_of_gives {name : String} {v : Value} {fs : List (String × Expr)}
    (h : Gives (body scope name v) fs) :
    ∃ entries, v.unfold = .map entries ∧ FieldsRead scope entries fs := by
  unfold body at h
  split at h
  next entries hv => exact ⟨entries, hv, fieldsRead_of_gives h⟩
  · exact absurd h not_gives_reject

private theorem modifierReads_of_gives {name : String} {v : Value} {e : Expr}
    (h : Gives (modifier scope name v) e) : ModifierReads scope name v e := by
  unfold modifier at h
  split at h
  next s hv =>
    split_ifs at h with hpolicy hreference
    · obtain rfl := gives_pure.1 h
      exact .policy hv hpolicy
    · obtain rfl := gives_pure.1 h
      exact .declared hreference hv
    · exact .value (exists_readsAs_of_gives h)
  next items hv =>
    split at h
    next names hreference hnames =>
      obtain rfl := gives_pure.1 h
      exact .names hreference hv hnames
    · exact .value (exists_readsAs_of_gives h)
  · exact .value (exists_readsAs_of_gives h)

private theorem type_of_gives {name type : String} {entries : List (Value × Value)}
    (h : Gives (resourceType name entries) type) :
    Value.lookup "Type" entries = some (.str type) ∧ type ≠ "" := by
  unfold resourceType at h
  split at h
  next type' ht =>
    split_ifs at h with hne
    · exact absurd h not_gives_reject
    · obtain rfl := gives_pure.1 h
      exact ⟨ht, hne⟩
  · exact absurd h not_gives_reject

private theorem properties_of_gives {name : String} {entries : List (Value × Value)}
    {props : Option (List (String × Expr))} (h : Gives (properties scope name entries) props) :
    Option.Rel (fun v fields => ∃ inner, v.unfold = .map inner ∧ FieldsRead scope inner fields)
      (Value.lookup "Properties" entries) props := by
  unfold properties at h
  split at h
  next v hv =>
    obtain ⟨fs, hfs, h⟩ := h.of_bind
    obtain rfl := gives_pure.1 h
    rw [hv]
    exact .some (body_of_gives hfs)
  next hv =>
    obtain rfl := gives_pure.1 h
    rw [hv]
    exact .none

theorem declarationReads_of_gives {kind : DeclKind} {name : String} {v : Value} {e : Expr}
    (h : Gives (declaration scope kind name v) e) : DeclarationReads scope kind v e := by
  have of_body (bodyKind : BodyKind)
      (h : Gives (body scope name v >>= fun fs => pure (.body bodyKind fs)) e) :
      DeclarationReads scope (.ofBody bodyKind) v e := by
    obtain ⟨fs, hfs, h⟩ := h.of_bind
    obtain rfl := gives_pure.1 h
    obtain ⟨entries, hv, hf⟩ := body_of_gives hfs
    exact .body hv hf
  cases kind with
  | resource =>
    simp only [declaration, resource] at h
    split at h
    next entries hv =>
      obtain ⟨type, htype, h⟩ := h.of_bind
      obtain ⟨_, -, h⟩ := h.of_bind
      obtain ⟨props, hprops, h⟩ := h.of_bind
      obtain ⟨mods, hmods, h⟩ := h.of_bind
      obtain rfl := gives_pure.1 h
      obtain ⟨ht, hne⟩ := type_of_gives htype
      refine .resource hv ht hne (properties_of_gives hprops) ?_
      refine (Gives.of_mapM hmods).imp fun p m hm => ?_
      obtain ⟨x, hx, hm⟩ := hm.of_bind
      obtain rfl := gives_pure.1 hm
      exact ⟨rfl, modifierReads_of_gives hx⟩
    · exact absurd h not_gives_reject
  | condition =>
    obtain ⟨x, hx, h⟩ := h.of_bind
    obtain rfl := gives_pure.1 h
    exact .condition (exists_readsAs_of_gives hx)
  | parameter => exact of_body .parameter h
  | mapping => exact of_body .mapping h
  | rule => exact of_body .rule h
  | output => exact of_body .output h

private theorem headerReads_of_gives {kind : Header} {v : Value} {e : Expr}
    (h : Gives (headerValue scope kind v) e) : HeaderReads scope kind v e := by
  have of_string (hk : kind ∈ [Header.formatVersion, .description, .transform])
      (h : Gives (stringHeader kind v) e) : HeaderReads scope kind v e := by
    unfold stringHeader at h
    split at h
    · obtain rfl := gives_pure.1 h
      exact .string hk rfl
    · exact absurd h not_gives_reject
  have of_mapping (hk : kind ∈ [Header.transform, .metadata, .globals])
      (h : Gives (mappingHeader scope kind v) e) : HeaderReads scope kind v e := by
    unfold mappingHeader at h
    split at h
    next entries hv =>
      obtain ⟨fs, hfs, h⟩ := h.of_bind
      obtain rfl := gives_pure.1 h
      exact .mapping hk hv (fieldsRead_of_gives hfs)
    · exact absurd h not_gives_reject
  cases kind with
  | formatVersion => exact of_string (by simp) h
  | description => exact of_string (by simp) h
  | transform =>
    simp only [headerValue, transform] at h
    split at h
    next s hv =>
      obtain rfl := gives_pure.1 h
      exact .string (by simp) hv
    next items hv =>
      split at h
      next names hnames =>
        obtain rfl := gives_pure.1 h
        exact .strings hv hnames
      · exact absurd h not_gives_reject
    next entries hv =>
      obtain ⟨fs, hfs, h⟩ := h.of_bind
      obtain rfl := gives_pure.1 h
      exact .mapping (by simp) hv (fieldsRead_of_gives hfs)
    · exact absurd h not_gives_reject
  | metadata => exact of_mapping (by simp) h
  | globals => exact of_mapping (by simp) h

theorem sectionEntries_of_gives {kind : DeclKind} {entries : List (String × Value)}
    (h : Gives (sectionEntries scope kind) entries) : SectionEntries scope kind entries := by
  unfold sectionEntries at h
  split at h
  next hv =>
    obtain rfl := gives_pure.1 h
    exact .absent (Option.map_eq_none_iff.1 hv)
  next hv =>
    obtain rfl := gives_pure.1 h
    obtain ⟨v, hlookup, hv⟩ := Option.map_eq_some_iff.1 hv
    exact .null hlookup hv
  next inner hv =>
    obtain rfl := gives_pure.1 h
    obtain ⟨v, hlookup, hv⟩ := Option.map_eq_some_iff.1 hv
    exact .mapping hlookup hv
  · exact absurd h not_gives_reject

private theorem sectionReads_of_gives {kind : DeclKind} {sts : List Statement}
    (h : Gives (assignments scope kind) sts) : SectionReads scope kind sts := by
  obtain ⟨entries, hentries, h⟩ := h.of_bind
  refine ⟨entries, sectionEntries_of_gives hentries, h.of_mapM.imp fun entry st hst => ?_⟩
  obtain ⟨e, he, hst⟩ := hst.of_bind
  exact ⟨e, gives_pure.1 hst, declarationReads_of_gives he⟩

/-- **What the template of a document is made of.** -/
theorem templateReads_of_gives {t : Template} (h : Gives (template scope) t) :
    TemplateReads scope t := by
  obtain ⟨_, -, h⟩ := h.of_bind
  obtain ⟨first, hfirst, h⟩ := h.of_bind
  obtain ⟨rest, hrest, h⟩ := h.of_bind
  obtain rfl := gives_pure.1 h
  refine ⟨first, rest, rfl, (Gives.of_mapM hfirst).imp fun p st hst => ?_,
    (Gives.of_mapM hrest).imp fun kind sts hsts => sectionReads_of_gives hsts⟩
  obtain ⟨e, he, hst⟩ := hst.of_bind
  exact ⟨e, gives_pure.1 hst, headerReads_of_gives he⟩

/-- A document is read if it is a mapping whose declarations have names. -/
theorem Scope.ofDocument_eq_ok_iff {limit : Nat} {document : Value} :
    Scope.ofDocument limit document = .ok scope ↔ document.unfold = .map scope.entries ∧
      SymbolTable.ofDocument? scope.entries = some scope.symbols ∧ scope.limit = limit := by
  unfold Scope.ofDocument
  constructor
  · intro h
    split at h
    next entries hentries =>
      split at h
      next symbols hsymbols =>
        cases h
        exact ⟨hentries, hsymbols, rfl⟩
      · cases h
    · cases h
  · rintro ⟨hentries, hsymbols, rfl⟩
    simp only [hentries, hsymbols]

/-- The template that a document is read as under a nesting limit. -/
theorem exists_templateReads {limit : Nat} {document : Value} {t : Template}
    (h : (decompileTemplate limit document).1 = .ok t) :
    ∃ scope, Scope.ofDocument limit document = .ok scope ∧ TemplateReads scope t := by
  unfold decompileTemplate at h
  split at h
  · cases h
  next scope hscope => exact ⟨scope, hscope, templateReads_of_gives ⟨{}, _, Prod.ext h rfl⟩⟩

end StackScript.Decompile
