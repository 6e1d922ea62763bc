import StackScript.Proofs.Compile.Scope
import StackScript.Proofs.Document.Tree

/-!
# The shape of documents

A document has the shape of the template it is compiled from. An object is compiled to a mapping
with the same keys in the same order, a resource to a mapping with its type, its properties and its
modifiers, and a section holds one entry for each assignment of its kind, in source order. Since
names and keys differ, no entry overwrites another one.

## Main definitions

* `Denotes`: the value of an expression, by rules instead of a computation.
* `DenotesModifier`, `DenotesDeclaration`: the values of modifiers and declarations.
* `Template.HasSections`: the sections of a document, compared with the statements of a template.

## Main results

* `Expr.IsWellFormed.denotes`: the computed value of an expression follows the rules.
* `Template.IsWellFormed.hasSections`: the sections of a compiled template.
* `hasSections_of_parseScript`: the document of a template that is read.
-/

namespace StackScript

open Value (keyed)

/-! ### Values by rules -/

/-- The value of an expression. The parts of an object, a list or a call are given together with
their values, in order. -/
inductive Denotes (symbols : SymbolTable) : Expr → Value → Prop
  | literal (s : Scalar) : Denotes symbols (.literal s) (.scalar s)
  | condition {x : String} (hp : Expr.isPseudo x = false)
      (hx : symbols.isConditionReference x = true) :
      Denotes symbols (.name x) (.single "Condition" (.str x))
  | reference {x : String} (hx : Expr.isPseudo x = true ∨
      symbols.isConditionReference x = false ∧ symbols.isReferenceable x = true) :
      Denotes symbols (.name x) (.single "Ref" (.str x))
  | object {parts : List (String × Expr × Value)} (h : ∀ p ∈ parts, Denotes symbols p.2.1 p.2.2) :
      Denotes symbols (.object (parts.map fun p => (p.1, p.2.1)))
        (.map (keyed (parts.map fun p => (p.1, p.2.2))))
  | array {parts : List (Expr × Value)} (h : ∀ p ∈ parts, Denotes symbols p.1 p.2) :
      Denotes symbols (.array (parts.map Prod.fst)) (.list (parts.map Prod.snd))
  | member {x : String} {path : List String} (hx : x ∈ symbols.resources) :
      Denotes symbols (.member (.name x) path)
        (.single "Fn::GetAtt" (.list [.str x, .str (".".intercalate path)]))
  | bracket {x : String} {path : List String} (hx : x ∈ symbols.resources) :
      Denotes symbols (.bracket (.name x) path)
        (.single "Fn::GetAtt" (.list (.str x :: path.map .str)))
  | ref {s : String} {operator : Option Operator} :
      Denotes symbols (.call "Ref" [.literal (.str s)] operator) (.single "Ref" (.str s))
  | choice {x : String} {parts : List (Expr × Value)} {operator : Option Operator}
      (hx : x ∈ symbols.conditions) (h : ∀ p ∈ parts, Denotes symbols p.1 p.2) :
      Denotes symbols (.call "If" (.name x :: parts.map Prod.fst) operator)
        (callValue "If" (.str x :: parts.map Prod.snd))
  | find {x : String} {parts : List (Expr × Value)} {operator : Option Operator}
      (hx : x ∈ symbols.mappings) (h : ∀ p ∈ parts, Denotes symbols p.1 p.2) :
      Denotes symbols (.call "FindInMap" (.name x :: parts.map Prod.fst) operator)
        (callValue "FindInMap" (.str x :: parts.map Prod.snd))
  | call {function : String} {parts : List (Expr × Value)} {operator : Option Operator}
      (hf : function ≠ "Ref")
      (hhead : ∀ x, (parts.map Prod.fst).head? = some (.name x) →
        function ≠ "If" ∧ function ≠ "FindInMap")
      (h : ∀ p ∈ parts, Denotes symbols p.1 p.2) :
      Denotes symbols (.call function (parts.map Prod.fst) operator)
        (callValue function (parts.map Prod.snd))

/-- The value of a modifier: a bare policy is its own name, and a modifier that names other
declarations has references replaced by the names. -/
inductive DenotesModifier (symbols : SymbolTable) : String → Expr → Value → Prop
  | policy {modifier x : String} (hm : (policyValues? modifier).isSome = true) :
      DenotesModifier symbols modifier (.name x) (.str x)
  | unwrapped {modifier : String} {e : Expr} {v : Value} (hm : modifier ∈ referenceModifiers)
      (h : Denotes symbols e v) : DenotesModifier symbols modifier e v.unwrapReference
  | plain {modifier : String} {e : Expr} {v : Value} (hm : modifier ∉ referenceModifiers)
      (hp : ∀ x, e = .name x → policyValues? modifier = none) (h : Denotes symbols e v) :
      DenotesModifier symbols modifier e v

/-- The value of a declaration. A resource has exactly its type, its properties if an object was
written, and its modifiers. -/
inductive DenotesDeclaration (symbols : SymbolTable) : Expr → Value → Prop
  | bare {type : String} {modifiers : List (String × Expr × Value)}
      (hm : ∀ m ∈ modifiers, DenotesModifier symbols m.1 m.2.1 m.2.2) :
      DenotesDeclaration symbols (.resource type none (modifiers.map fun m => (m.1, m.2.1)))
        (.map (keyed (("Type", .str type) :: modifiers.map fun m => (m.1, m.2.2))))
  | resource {type : String} {fields : List (String × Expr)} {properties : Value}
      {modifiers : List (String × Expr × Value)} (hp : Denotes symbols (.object fields) properties)
      (hm : ∀ m ∈ modifiers, DenotesModifier symbols m.1 m.2.1 m.2.2) :
      DenotesDeclaration symbols
        (.resource type (some fields) (modifiers.map fun m => (m.1, m.2.1)))
        (.map (keyed (("Type", .str type) :: ("Properties", properties) ::
          modifiers.map fun m => (m.1, m.2.2))))
  | body {kind : BodyKind} {fields : List (String × Expr)} {v : Value}
      (h : Denotes symbols (.object fields) v) : DenotesDeclaration symbols (.body kind fields) v
  | condition {test : Expr} {v : Value} (h : Denotes symbols test v) :
      DenotesDeclaration symbols (.condition test) v

/-- The sections of a document have the shape of a template: they stand in the fixed order, there
is one for each header and for each kind of declaration that occurs, and one for resources in any
case, and the entries of a section are the assignments of its kind in source order. -/
structure Template.HasSections (t : Template) (sections : List (String × Value)) : Prop where
  order : (sections.map Prod.fst).Sublist sectionOrder
  header : ∀ kind : Header, kind.keyword ∈ sections.map Prod.fst ↔ kind ∈ t.headers.map Prod.fst
  header_value : ∀ h ∈ t.headers, ∃ v, (h.1.keyword, v) ∈ sections ∧
    Denotes (.ofTemplate t) h.2 v
  declared : ∀ kind : DeclKind, kind.sectionKey ∈ sections.map Prod.fst ↔
    kind = .resource ∨ t.declarations kind ≠ []
  entries : ∀ (kind : DeclKind) (v : Value), (kind.sectionKey, v) ∈ sections →
    ∃ entries, v = .map (keyed entries) ∧
      List.Forall₂ (fun d entry => entry.1 = d.1 ∧ DenotesDeclaration (.ofTemplate t) d.2 entry.2)
        (t.declarations kind) entries

/-! ### Expressions -/

/-- Lists whose items correspond, as one list of pairs. -/
private theorem exists_pairs {α β : Type} {R : α → β → Prop} {as : List α} {bs : List β}
    (h : List.Forall₂ R as bs) :
    ∃ parts : List (α × β), parts.map Prod.fst = as ∧ parts.map Prod.snd = bs ∧
      ∀ p ∈ parts, R p.1 p.2 := by
  induction h with
  | nil => exact ⟨[], rfl, rfl, by simp⟩
  | cons hab _ ih =>
    obtain ⟨parts, rfl, rfl, hparts⟩ := ih
    exact ⟨(_, _) :: parts, rfl, rfl, List.forall_mem_cons.2 ⟨hab, hparts⟩⟩

/-- Fields and their values, as one list of keys with both. -/
theorem exists_triples {β : Type} {R : String → Expr → β → Prop}
    {fields : List (String × Expr)} {vs : List (String × β)}
    (h : List.Forall₂ (fun f v => v.1 = f.1 ∧ R f.1 f.2 v.2) fields vs) :
    ∃ parts : List (String × Expr × β), parts.map (fun p => (p.1, p.2.1)) = fields ∧
      parts.map (fun p => (p.1, p.2.2)) = vs ∧ ∀ p ∈ parts, R p.1 p.2.1 p.2.2 := by
  induction h with
  | nil => exact ⟨[], rfl, rfl, by simp⟩
  | @cons f v fields vs hf _ ih =>
    obtain ⟨key, value⟩ := v
    obtain ⟨rfl, hR⟩ := hf
    obtain ⟨parts, rfl, rfl, hparts⟩ := ih
    exact ⟨(f.1, f.2, value) :: parts, rfl, rfl, List.forall_mem_cons.2 ⟨hR, hparts⟩⟩

namespace Expr

variable {symbols : SymbolTable}

private theorem denotes_name {x : String} {v : Value} (h : nameValue symbols x = .ok v) :
    Denotes symbols (.name x) v := by
  unfold nameValue at h
  split_ifs at h with hpseudo hcondition hreference <;> cases h
  · exact .reference (.inl hpseudo)
  · exact .condition (by simpa using hpseudo) hcondition
  · exact .reference (.inr ⟨by simpa using hcondition, hreference⟩)

private theorem mem_resources_of_attributeBase {base : Expr} {x : String}
    (h : attributeBase symbols base = .ok x) : base = .name x ∧ x ∈ symbols.resources := by
  cases base with
  | name y =>
    simp only [attributeBase] at h
    split_ifs at h with hy
    cases h
    exact ⟨rfl, List.contains_iff_mem.1 hy⟩
  | _ => cases h

/-- The first argument of a call is a plain name or has a value like any other. -/
private theorem firstValue_cases {function : String} {first : Expr} {v : Value}
    (h : firstValue symbols function first = .ok v) :
    (∃ x, first = .name x ∧ v = .str x ∧
      (function = "If" ∧ x ∈ symbols.conditions ∨
        function = "FindInMap" ∧ x ∈ symbols.mappings)) ∨
    (∀ x, first = .name x → function ≠ "If" ∧ function ≠ "FindInMap") ∧
      toValue symbols first = .ok v := by
  cases first with
  | name x =>
    simp only [firstValue, headName?] at h
    by_cases hif : function = "If"
    · simp only [hif, if_true] at h
      split_ifs at h with hx <;> cases h
      exact .inl ⟨x, rfl, rfl, .inl ⟨hif, List.contains_iff_mem.1 hx⟩⟩
    by_cases hfind : function = "FindInMap"
    · simp only [hfind, String.reduceEq, if_false, if_true] at h
      split_ifs at h with hx <;> cases h
      exact .inl ⟨x, rfl, rfl, .inr ⟨hfind, List.contains_iff_mem.1 hx⟩⟩
    · simp only [hif, hfind, if_false] at h
      exact .inr ⟨fun _ _ => ⟨hif, hfind⟩, h⟩
  | _ => exact .inr ⟨fun _ hx => absurd hx (by simp), h⟩

/-- The computed value of a well-formed expression follows the rules. -/
theorem IsWellFormed.denotes {e : Expr} (h : e.IsWellFormed) {v : Value}
    (hv : toValue symbols e = .ok v) : Denotes symbols e v := by
  induction e using induction_children generalizing v with
  | h e ih =>
    obtain ⟨hproper, hinside⟩ := isWellFormed_iff.1 h
    replace ih (e') (he' : e' ∈ e.children.map Prod.snd) (v : Value)
        (hv : toValue symbols e' = .ok v) : Denotes symbols e' v := by
      obtain ⟨c, hc, rfl⟩ := List.mem_map.1 he'
      exact ih c hc (hinside _ he') hv
    clear hinside h
    cases e with
    | literal s =>
      cases hv
      exact .literal s
    | name x => exact denotes_name hv
    | object fields =>
      rw [children_object_snd, List.forall_mem_map] at ih
      rw [toValue] at hv
      obtain ⟨vs, hvs, hv⟩ := bind_eq_ok_iff.1 hv
      cases hv
      obtain ⟨parts, rfl, rfl, hparts⟩ :=
        exists_triples (R := fun _ e v => toValue symbols e = .ok v) (fieldValues_eq_ok_iff.1 hvs)
      rw [Value.ofFields_eq_map]
      · refine .object fun p hp => ih (p.1, p.2.1) (List.mem_map_of_mem hp) _ (hparts p hp)
      · simpa [IsProper, Function.comp_def] using hproper
    | array items =>
      rw [children_array_snd] at ih
      rw [toValue] at hv
      obtain ⟨vs, hvs, hv⟩ := bind_eq_ok_iff.1 hv
      cases hv
      obtain ⟨parts, rfl, rfl, hparts⟩ := exists_pairs (values_eq_ok_iff.1 hvs)
      exact .array fun p hp => ih p.1 (List.mem_map_of_mem hp) _ (hparts p hp)
    | member base path =>
      rw [toValue] at hv
      obtain ⟨x, hx, hv⟩ := bind_eq_ok_iff.1 hv
      cases hv
      obtain ⟨rfl, hmem⟩ := mem_resources_of_attributeBase hx
      exact .member hmem
    | bracket base path =>
      rw [toValue] at hv
      obtain ⟨x, hx, hv⟩ := bind_eq_ok_iff.1 hv
      cases hv
      obtain ⟨rfl, hmem⟩ := mem_resources_of_attributeBase hx
      exact .bracket hmem
    | call function args operator =>
      rw [children_call_snd] at ih
      by_cases href : function = "Ref"
      · subst href
        obtain ⟨s, rfl⟩ := hproper.exists_of_ref
        cases hv
        exact .ref
      cases args with
      | nil =>
        simp only [toValue, href, if_false] at hv
        cases hv
        exact @Denotes.call _ _ [] _ href (by simp) (by simp)
      | cons first others =>
        rw [List.forall_mem_cons] at ih
        rw [toValue_call_cons href] at hv
        obtain ⟨w, hw, hv⟩ := bind_eq_ok_iff.1 hv
        obtain ⟨vs, hvs, hv⟩ := bind_eq_ok_iff.1 hv
        cases hv
        obtain ⟨parts, rfl, rfl, hparts⟩ := exists_pairs (values_eq_ok_iff.1 hvs)
        have hothers : ∀ p ∈ parts, Denotes symbols p.1 p.2 :=
          fun p hp => ih.2 p.1 (List.mem_map_of_mem hp) _ (hparts p hp)
        obtain ⟨x, rfl, rfl, ⟨rfl, hx⟩ | ⟨rfl, hx⟩⟩ | ⟨hplain, hfirst⟩ := firstValue_cases hw
        · exact .choice hx hothers
        · exact .find hx hothers
        · refine @Denotes.call _ _ ((first, w) :: parts) _ href (fun x hx => hplain x ?_) ?_
          · simpa using hx
          · exact List.forall_mem_cons.2 ⟨ih.1 w hfirst, hothers⟩
    | resource => cases hv
    | body => cases hv
    | condition => cases hv

/-! ### Declarations -/

private theorem denotesModifier {modifier : String} {e : Expr} {v : Value} (h : e.IsWellFormed)
    (hv : modifierValue symbols modifier e = .ok v) : DenotesModifier symbols modifier e v := by
  have hplain (hname : ∀ x, e = .name x → policyValues? modifier = none)
      (hv : (if referenceModifiers.contains modifier then
        Value.unwrapReference <$> toValue symbols e else toValue symbols e) = .ok v) :
      DenotesModifier symbols modifier e v := by
    split_ifs at hv with hreference
    · obtain ⟨w, hw, rfl⟩ := map_eq_ok_iff.1 hv
      exact .unwrapped (List.contains_iff_mem.1 hreference) (h.denotes hw)
    · exact .plain (mt List.contains_iff_mem.2 hreference) hname (h.denotes hv)
  unfold modifierValue at hv
  split at hv
  next hsome =>
    cases hv
    exact .policy (by rw [hsome]; rfl)
  next hnone =>
    refine hplain (fun x hx => ?_) hv
    cases hpolicy : policyValues? modifier with
    | none => rfl
    | some allowed => exact (hnone allowed x hpolicy hx).elim

private theorem denotesModifiers {modifiers : List (String × Expr)} {vs : List (String × Value)}
    (h : ∀ m ∈ modifiers, m.2.IsWellFormed) (hvs : modifierValues symbols modifiers = .ok vs) :
    ∃ parts : List (String × Expr × Value), parts.map (fun p => (p.1, p.2.1)) = modifiers ∧
      parts.map (fun p => (p.1, p.2.2)) = vs ∧
      ∀ p ∈ parts, DenotesModifier symbols p.1 p.2.1 p.2.2 := by
  rw [modifierValues_eq_mapM, mapM_eq_ok_iff] at hvs
  have hpairs : List.Forall₂ (fun m v => v.1 = m.1 ∧ modifierValue symbols m.1 m.2 = .ok v.2)
      modifiers vs := by
    refine hvs.imp fun m v hv => ?_
    obtain ⟨w, hw, rfl⟩ := map_eq_ok_iff.1 hv
    exact ⟨rfl, hw⟩
  obtain ⟨parts, rfl, rfl, hparts⟩ :=
    exists_triples (R := fun modifier e v => modifierValue symbols modifier e = .ok v) hpairs
  exact ⟨parts, rfl, rfl, fun p hp =>
    denotesModifier (h _ (List.mem_map_of_mem hp)) (hparts p hp)⟩

/-- The type and the properties of a resource have keys that no modifier has. -/
theorem nodup_resource_keys {keys : List String} (hkeys : keys.Nodup)
    (hnames : ∀ key ∈ keys, key ∈ modifierNames) : ("Type" :: "Properties" :: keys).Nodup := by
  have hnot (key : String) (h : key ∉ modifierNames) : key ∉ keys := fun hmem => h (hnames key hmem)
  have htype := hnot "Type" (by decide)
  have hproperties := hnot "Properties" (by decide)
  simp [htype, hproperties, hkeys]

/-- The computed value of a well-formed declaration follows the rules. -/
theorem IsWellFormed.denotesDeclaration {e : Expr} (h : e.IsWellFormed) {v : Value}
    (hv : declarationValue symbols e = .ok v) : DenotesDeclaration symbols e v := by
  obtain ⟨hproper, hinside⟩ := isWellFormed_iff.1 h
  have hobject {fields : List (String × Expr)} (hkeys : (fields.map Prod.fst).Nodup)
      (hfields : ∀ f ∈ fields, f.2.IsWellFormed) {v : Value}
      (hv : toValue symbols (.object fields) = .ok v) : Denotes symbols (.object fields) v := by
    refine IsWellFormed.denotes (e := .object fields) (isWellFormed_iff.2 ⟨hkeys, ?_⟩) hv
    rw [children_object_snd]
    exact List.forall_mem_map.2 hfields
  cases e with
  | resource type properties modifiers =>
    obtain ⟨-, hfields, hkeys, hnames⟩ := hproper
    rw [children_resource_snd, List.forall_mem_append, List.forall_mem_map,
      List.forall_mem_map] at hinside
    rw [declarationValue, resourceValue_eq] at hv
    obtain ⟨body, hbody, hv⟩ := bind_eq_ok_iff.1 hv
    obtain ⟨vs, hvs, hv⟩ := bind_eq_ok_iff.1 hv
    cases hv
    obtain ⟨parts, rfl, rfl, hparts⟩ := denotesModifiers hinside.2 hvs
    have hall := nodup_resource_keys hkeys fun key hkey => by
      obtain ⟨m, hm, rfl⟩ := List.mem_map.1 hkey
      exact (hnames m hm).1
    rw [List.map_map] at hall
    cases properties with
    | none =>
      cases hbody
      rw [Value.ofFields_eq_map]
      · exact .bare hparts
      · have := hall.sublist (((List.Sublist.refl _).cons "Properties").cons_cons "Type")
        simpa [Function.comp_def] using this
    | some fields =>
      rw [propertiesEntry] at hbody
      obtain ⟨values, hvalues, hbody⟩ := bind_eq_ok_iff.1 hbody
      cases hbody
      rw [Value.ofFields_eq_map]
      · refine .resource (hobject (hfields fields rfl) hinside.1 ?_) hparts
        rw [toValue, hvalues]
        rfl
      · simpa [Function.comp_def] using hall
  | body kind fields =>
    rw [children_body_snd, List.forall_mem_map] at hinside
    exact .body (hobject hproper hinside hv)
  | condition test => exact .condition ((hinside test (by simp [children])).denotes hv)
  | _ => cases hv

end Expr

/-! ### Templates -/

namespace Template

variable {t : Template}

theorem forall₂_filterMap {α β γ δ : Type} {R : α → β → Prop} {S : γ → δ → Prop}
    {f : α → Option γ} {g : β → Option δ} {as : List α} {bs : List β} (h : List.Forall₂ R as bs)
    (hfg : ∀ a ∈ as, ∀ b, R a b →
      f a = none ∧ g b = none ∨ ∃ c d, f a = some c ∧ g b = some d ∧ S c d) :
    List.Forall₂ S (as.filterMap f) (bs.filterMap g) := by
  induction h with
  | nil => exact .nil
  | @cons a b as bs hab _ ih =>
    rw [List.forall_mem_cons] at hfg
    obtain ⟨ha, hb⟩ | ⟨c, d, ha, hb, hcd⟩ := hfg.1 b hab
    · rw [List.filterMap_cons_none ha, List.filterMap_cons_none hb]
      exact ih hfg.2
    · rw [List.filterMap_cons_some ha, List.filterMap_cons_some hb]
      exact .cons hcd (ih hfg.2)

/-- The entries of declarations of a kind correspond to the declarations. -/
theorem IsWellFormed.forall₂_declaredFields (h : t.IsWellFormed) {entries : List Entry}
    (hentries : t.statements.mapM (Statement.toEntry (.ofTemplate t)) = .ok entries)
    (kind : DeclKind) :
    List.Forall₂ (fun d entry => entry.1 = d.1 ∧ DenotesDeclaration (.ofTemplate t) d.2 entry.2)
      (t.declarations kind) (declaredFields entries kind) := by
  refine forall₂_filterMap (mapM_eq_ok_iff.1 hentries) fun st hst entry hentry => ?_
  cases st with
  | header k value =>
    obtain ⟨v, -, rfl⟩ := Statement.toEntry_header_eq_ok_iff.1 hentry
    exact .inl ⟨rfl, rfl⟩
  | assign name value line =>
    obtain ⟨k, v, hk, hv, rfl⟩ := Statement.toEntry_assign_eq_ok_iff.1 hentry
    by_cases hkind : k = kind
    · subst hkind
      refine .inr ⟨(name, value), (name, v), by simp [hk], by simp, rfl, ?_⟩
      exact (h.root hst).denotesDeclaration hv
    · exact .inl ⟨by simp [hk, hkind], by simp [hkind]⟩

/-- The entries of headers correspond to the headers. -/
theorem IsWellFormed.forall₂_headers (h : t.IsWellFormed) {entries : List Entry}
    (hentries : t.statements.mapM (Statement.toEntry (.ofTemplate t)) = .ok entries)
    (kind : Header) :
    List.Forall₂ (Denotes (.ofTemplate t))
      (t.headers.filterMap fun d => if d.1 = kind then some d.2 else none)
      (entries.filterMap fun
        | .header k v => if k = kind then some v else none
        | .declaration .. => none) := by
  rw [Template.headers, List.filterMap_filterMap]
  refine forall₂_filterMap (mapM_eq_ok_iff.1 hentries) fun st hst entry hentry => ?_
  cases st with
  | header k value =>
    obtain ⟨v, hv, rfl⟩ := Statement.toEntry_header_eq_ok_iff.1 hentry
    by_cases hkind : k = kind
    · exact .inr ⟨value, v, by simp [hkind], by simp [hkind], (h.root hst).denotes hv⟩
    · exact .inl ⟨by simp [hkind], by simp [hkind]⟩
  | assign name value line =>
    obtain ⟨k, v, -, -, rfl⟩ := Statement.toEntry_assign_eq_ok_iff.1 hentry
    exact .inl ⟨rfl, rfl⟩

/-- A header has the value of its last entry, if it has any. -/
private theorem IsWellFormed.headerValue_cases (h : t.IsWellFormed) {entries : List Entry}
    (hentries : t.statements.mapM (Statement.toEntry (.ofTemplate t)) = .ok entries)
    (kind : Header) :
    kind ∉ t.headers.map Prod.fst ∧ headerValue? entries kind = none ∨
      ∃ value v, (kind, value) ∈ t.headers ∧ headerValue? entries kind = some v ∧
        Denotes (.ofTemplate t) value v := by
  have hmem {value : Expr} : value ∈ (t.headers.filterMap fun d =>
      if d.1 = kind then some d.2 else none) ↔ (kind, value) ∈ t.headers := by
    rw [List.mem_filterMap]
    constructor
    · rintro ⟨d, hd, hsome⟩
      split_ifs at hsome with hkind
      cases hsome
      rwa [← hkind]
    · exact fun hd => ⟨(kind, value), hd, if_pos rfl⟩
  obtain ⟨parts, hfst, hsnd, hparts⟩ := exists_pairs (h.forall₂_headers hentries kind)
  have hvalue : headerValue? entries kind = (parts.map Prod.snd).getLast? := by
    rw [hsnd]
    rfl
  rw [hvalue]
  cases hlast : (parts.map Prod.snd).getLast? with
  | none =>
    refine .inl ⟨fun hkind => ?_, rfl⟩
    rw [List.getLast?_eq_none_iff, List.map_eq_nil_iff] at hlast
    obtain ⟨⟨k, value⟩, hd, rfl⟩ := List.mem_map.1 hkind
    rw [← hmem, ← hfst, hlast] at hd
    cases hd
  | some v =>
    obtain ⟨p, hp, rfl⟩ := List.mem_map.1 (List.mem_of_getLast? hlast)
    refine .inr ⟨p.1, p.2, ?_, rfl, hparts p hp⟩
    rw [← hmem, ← hfst]
    exact List.mem_map_of_mem hp

/-- A section is that of resources or has an entry. -/
theorem IsWellFormed.sectionValue_cases (h : t.IsWellFormed) {entries : List Entry}
    (hentries : t.statements.mapM (Statement.toEntry (.ofTemplate t)) = .ok entries)
    (kind : DeclKind) :
    (kind ≠ .resource ∧ t.declarations kind = []) ∧ sectionValue? entries kind = none ∨
      (kind = .resource ∨ t.declarations kind ≠ []) ∧
        sectionValue? entries kind = some (.map (keyed (declaredFields entries kind))) := by
  have hpairs := h.forall₂_declaredFields hentries kind
  unfold sectionValue?
  cases hfields : declaredFields entries kind with
  | nil =>
    rw [hfields, List.forall₂_nil_right_iff] at hpairs
    by_cases hkind : kind = .resource
    · exact .inr ⟨.inl hkind, by simp [hkind]⟩
    · exact .inl ⟨⟨hkind, hpairs⟩, by simp [hkind]⟩
  | cons field fields =>
    have hkeys : (declaredFields entries kind).map Prod.fst =
        (t.declarations kind).map Prod.fst :=
      Value.map_fst_eq_of_forall₂ (hpairs.flip.imp fun _ _ h => h.1)
    refine .inr ⟨.inr ?_, ?_⟩
    · intro hnil
      rw [hnil, hfields] at hpairs
      cases hpairs
    · refine congrArg some (Value.ofFields_eq_map ?_)
      rw [← hfields, hkeys]
      exact h.names kind

theorem documentSection_keyword (entries : List Entry) (kind : Header) :
    documentSection? entries kind.keyword = headerValue? entries kind := by
  cases kind <;> rfl

theorem documentSection_sectionKey (entries : List Entry) (kind : DeclKind) :
    documentSection? entries kind.sectionKey = sectionValue? entries kind := by
  cases kind <;> rfl

/-- The sections of the document that entries add up to. -/
def sectionsOf (entries : List Entry) : List (String × Value) :=
  sectionOrder.filterMap fun key => (documentSection? entries key).map (Prod.mk key)

theorem documentOfEntries_eq (entries : List Entry) :
    documentOfEntries entries = .map (keyed (sectionsOf entries)) := by
  rw [documentOfEntries, keyed, sectionsOf, List.map_filterMap]
  simp only [Option.map_map, Function.comp_def]

private theorem mem_sectionsOf {entries : List Entry} {key : String} (hkey : key ∈ sectionOrder)
    {v : Value} : (key, v) ∈ sectionsOf entries ↔ documentSection? entries key = some v := by
  rw [sectionsOf, List.mem_filterMap]
  constructor
  · rintro ⟨key', -, hsome⟩
    obtain ⟨v', hv', heq⟩ := Option.map_eq_some_iff.1 hsome
    cases heq
    exact hv'
  · exact fun hv => ⟨key, hkey, by rw [hv]; rfl⟩

private theorem mem_keys_sectionsOf {entries : List Entry} {key : String}
    (hkey : key ∈ sectionOrder) :
    key ∈ (sectionsOf entries).map Prod.fst ↔ ∃ v, documentSection? entries key = some v := by
  simp only [← mem_sectionsOf hkey, List.mem_map, Prod.exists]
  exact ⟨fun ⟨_, v, hv, h⟩ => ⟨v, h ▸ hv⟩, fun ⟨v, hv⟩ => ⟨key, v, hv, rfl⟩⟩

theorem sublist_keys (f : String → Option Value) (keys : List String) :
    ((keys.filterMap fun key => (f key).map (Prod.mk key)).map Prod.fst).Sublist keys := by
  induction keys with
  | nil => exact .slnil
  | cons key keys ih =>
    cases hf : f key with
    | none =>
      rw [List.filterMap_cons_none (by rw [hf]; rfl)]
      exact ih.cons key
    | some v =>
      rw [List.filterMap_cons_some (by rw [hf]; rfl), List.map_cons]
      exact ih.cons_cons key

theorem keyword_mem_sectionOrder (kind : Header) : kind.keyword ∈ sectionOrder := by
  cases kind <;> decide

theorem sectionKey_mem_sectionOrder (kind : DeclKind) : kind.sectionKey ∈ sectionOrder := by
  cases kind <;> decide

/-- A section is that of a header or of a kind of declarations. -/
theorem sectionOrder_cases {key : String} (h : key ∈ sectionOrder) :
    (∃ kind : Header, key = kind.keyword) ∨ ∃ kind : DeclKind, key = kind.sectionKey := by
  obtain h | h := List.mem_append.1 h
  · obtain ⟨kind, -, rfl⟩ := List.mem_map.1 h
    exact .inl ⟨kind, rfl⟩
  · obtain ⟨kind, -, rfl⟩ := List.mem_map.1 h
    exact .inr ⟨kind, rfl⟩

/-- The document of a well-formed template has the shape of the template. -/
theorem IsWellFormed.hasSections (h : t.IsWellFormed) {document : Value}
    (hdocument : t.toDocument = .ok document) :
    ∃ sections, document = .map (keyed sections) ∧ t.HasSections sections := by
  obtain ⟨entries, hentries, hdocument⟩ := bind_eq_ok_iff.1 hdocument
  cases hdocument
  refine ⟨sectionsOf entries, documentOfEntries_eq entries, sublist_keys _ _, fun kind => ?_,
    fun hd hhd => ?_, fun kind => ?_, fun kind v hv => ?_⟩
  · rw [mem_keys_sectionsOf (keyword_mem_sectionOrder kind), documentSection_keyword]
    obtain ⟨hkind, hnone⟩ | ⟨value, v, hvalue, hsome, -⟩ := h.headerValue_cases hentries kind
    · exact iff_of_false (by simp [hnone]) hkind
    · exact iff_of_true ⟨v, hsome⟩ (List.mem_map_of_mem (f := Prod.fst) hvalue)
  · obtain ⟨hkind, -⟩ | ⟨value, v, hvalue, hsome, hdenotes⟩ := h.headerValue_cases hentries hd.1
    · exact absurd (List.mem_map_of_mem hhd) hkind
    · -- Headers come once, so this is the value of the very same statement.
      have hsame : hd = (hd.1, value) := List.inj_on_of_nodup_map h.headers hhd hvalue rfl
      refine ⟨v, ?_, (congrArg Prod.snd hsame).symm ▸ hdenotes⟩
      rw [mem_sectionsOf (keyword_mem_sectionOrder _), documentSection_keyword]
      exact hsome
  · rw [mem_keys_sectionsOf (sectionKey_mem_sectionOrder kind), documentSection_sectionKey]
    obtain ⟨⟨hkind, hnil⟩, hnone⟩ | ⟨hkind, hsome⟩ := h.sectionValue_cases hentries kind
    · exact iff_of_false (by simp [hnone]) (by simp [hkind, hnil])
    · exact iff_of_true ⟨_, hsome⟩ hkind
  · rw [mem_sectionsOf (sectionKey_mem_sectionOrder kind), documentSection_sectionKey] at hv
    obtain ⟨-, hnone⟩ | ⟨-, hsome⟩ := h.sectionValue_cases hentries kind
    · exact absurd (hnone.symm.trans hv) (by simp)
    · cases hsome.symm.trans hv
      exact ⟨_, rfl, h.forall₂_declaredFields hentries kind⟩

end Template

/-- The document of a template that is read loses and overwrites nothing: it has the shape of the
template, section by section and entry by entry. -/
theorem hasSections_of_parseScript {limit : Nat} {text : List Char} {t : Template}
    {document : Value} (h : parseScript limit text = .ok t)
    (hdocument : t.toDocument = .ok document) :
    ∃ sections, document = .map (keyed sections) ∧ t.HasSections sections :=
  (isWellFormed_of_parseScript h).hasSections hdocument

/-- A script with two kinds of declarations, a header and a resource with all of its parts. -/
private def sectionScript : List Char :=
  "Description 'd'\nr=Resource A {k:[1],} DependsOn(r)\np=Parameter {}".toList

/-- The document of the script with sections has their shape. -/
theorem hasSections_sectionScript :
    ∃ t document, parseScript 4 sectionScript = .ok t ∧ t.toDocument = .ok document ∧
      ∃ sections, document = .map (keyed sections) ∧ t.HasSections sections := by
  have hread : (match parseScript 4 sectionScript with
      | .ok t => t.toDocument.toOption.isSome
      | .error _ => false) = true := by decide +kernel
  cases hparse : parseScript 4 sectionScript with
  | error e => simp [hparse] at hread
  | ok t =>
    simp only [hparse] at hread
    cases hdocument : t.toDocument with
    | error e => simp [hdocument, Except.toOption] at hread
    | ok document =>
      exact ⟨t, document, rfl, hdocument, hasSections_of_parseScript hparse hdocument⟩

end StackScript
