import StackScript.Proofs.Decompile.Refines
import StackScript.Proofs.Decompile.RoundTrip

/-!
# Scripts of documents are fixed points

Compiling the script of a document gives the normal form of the document. The normal form is read
as the same template as the document, so it has the same script: writing the script of what a
script is compiled to changes nothing.

## Main results

* `Decompile.refines_template`: the normal form of a tree is read as whatever the tree is read as.
* `decompile_of_decompile`: the script of a document is a fixed point.
-/

namespace StackScript

open Value (keyed)

/-! ### Sections of normal forms -/

/-- The fields of the normal form of a document. -/
private def normalFields (document : Value) : List (String × Value) :=
  sectionOrder.filterMap fun key => (document.sectionForm? key).map fun v => (key, v)

private theorem lookup_normalFields {document : Value} {key : String} (h : key ∈ sectionOrder) :
    Value.lookup key (keyed (normalFields document)) = document.sectionForm? key := by
  rw [Value.lookup_keyed, normalFields, Decompile.lookup_filterMap, if_pos h]

private theorem lookup_keyword (document : Value) (kind : Header) :
    Value.lookup kind.keyword (keyed (normalFields document)) =
      (document.field? kind.keyword).map Value.headerForm := by
  rw [lookup_normalFields (by cases kind <;> decide)]
  cases kind <;> rfl

private theorem lookup_sectionKey (document : Value) (kind : DeclKind) :
    Value.lookup kind.sectionKey (keyed (normalFields document)) =
      document.declarationsForm? kind := by
  rw [lookup_normalFields (by cases kind <;> decide)]
  cases kind <;> rfl

/-- The fields of the normal form of a resource. -/
private def resourceFields (v : Value) : List (String × Value) :=
  Decompile.resourceKeys.filterMap fun key =>
    (v.field? key).map fun part => (key, part.partForm key)

private theorem lookup_resourceFields {v : Value} {key : String}
    (h : key ∈ Decompile.resourceKeys) :
    Value.lookup key (keyed (resourceFields v)) = (v.field? key).map (Value.partForm key) := by
  have hfields : resourceFields v = Decompile.resourceKeys.filterMap fun key =>
      ((v.field? key).map (Value.partForm key)).map fun part => (key, part) := by
    simp only [resourceFields, Option.map_map, Function.comp_def]
  rw [Value.lookup_keyed, hfields, Decompile.lookup_filterMap, if_pos h]

namespace Decompile

variable {scope : Scope}

/-! ### Keys without a place -/

/-- A step that keeps the depth does not matter for the ones after it. -/
private theorem refines_pure_unit {m : Decompile Unit}
    (h : ∀ s u, m.run.run s = (.ok (), u) → u.depth = s.depth) : Refines m (pure ()) :=
  fun s s' _ u hdepth hrun => ⟨s', rfl, hdepth.trans (h s u hrun).symm⟩

/-- Warnings about unknown keys do not matter, and a mapping with known keys only gives none. -/
private theorem refines_warnings (known : List String) (warning : Value → Warning)
    (entries : List (Value × Value)) {fields : List (String × Value)}
    (hknown : ∀ field ∈ fields, field.1 ∈ known) :
    Refines
      (entries.forM fun entry => if isKnownKey known entry.1 then pure ()
        else warn (warning entry.1))
      ((keyed fields).forM fun entry => if isKnownKey known entry.1 then pure ()
        else warn (warning entry.1)) := by
  have hnone : ((keyed fields).forM fun entry => if isKnownKey known entry.1 then pure ()
      else warn (warning entry.1)) = (pure () : Decompile Unit) := by
    induction fields with
    | nil => rfl
    | cons field fields ih =>
      rw [List.forall_mem_cons] at hknown
      rw [Value.keyed_cons, List.forM, ih hknown.2, if_pos]
      · rfl
      · simpa [isKnownKey] using hknown.1
  rw [hnone]
  refine refines_pure_unit fun s u hrun => ?_
  induction entries generalizing s with
  | nil =>
    cases hrun
    rfl
  | cons entry entries ih =>
    rw [List.forM] at hrun
    obtain ⟨_, t, hfirst, hrest⟩ := exists_of_run_bind hrun
    rw [ih t hrest]
    split_ifs at hfirst
    · cases hfirst
      rfl
    · cases hfirst
      rfl

/-! ### Parts of a template -/

/-- A mapping is read like its body form. -/
private theorem refines_object {written : List (String × Value)}
    (hwritten : ∀ w ∈ written, w.2.isTree = true) :
    Refines (object scope (keyed written)) (object scope (keyed (Value.fieldListForms written))) :=
  refines_fields (fun v hv => @refines_value scope.limit scope.symbols v hv) hwritten

private theorem refines_body {name : String} {v : Value} (hv : v.isTree = true) :
    Refines (body scope name v) (body scope name v.bodyForm) := by
  cases v with
  | map entries =>
    obtain ⟨written, rfl, -, htrees⟩ := Value.isTree_map_iff.1 hv
    rw [Value.bodyForm, Value.fields_keyed]
    exact refines_object htrees
  | knot | link => simp [Value.isTree] at hv
  | _ => exact refines_reject

private theorem refines_modifier (name : String) {v : Value} (hv : v.isTree = true) :
    Refines (modifier scope name v) (modifier scope name v.listForm) := by
  have hvalue := refines_value scope.limit scope.symbols hv
  cases v with
  | scalar value =>
    rw [Value.listForm_scalar] at hvalue ⊢
    cases value with
    | str s =>
      simp only [modifier, Value.unfold]
      split_ifs
      · exact refines_pure _
      · exact refines_pure _
      · exact hvalue
    | _ => exact hvalue
  | list items =>
    rw [Value.listForm_list] at hvalue ⊢
    simp only [modifier, Value.unfold, allStrings?_map_listForm]
    split
    · exact refines_pure _
    · exact hvalue
  | map entries =>
    obtain ⟨entries', hform⟩ := exists_listForm_map_eq entries
    rw [hform] at hvalue ⊢
    exact hvalue
  | _ => simp [Value.isTree] at hv

private theorem refines_resourceType (name : String) {entries : List (Value × Value)}
    (hv : (Value.map entries).isTree = true) :
    Refines (resourceType name entries)
      (resourceType name (keyed (resourceFields (.map entries)))) := by
  unfold resourceType
  rw [lookup_resourceFields (by decide), Value.lookup_eq_field? hv]
  split
  next type htype =>
    rw [htype]
    simp only [Option.map_some, Value.partForm, String.reduceEq, if_false, Value.listForm_scalar]
    split_ifs
    · exact refines_reject
    · exact refines_pure _
  · exact refines_reject

private theorem refines_properties (name : String) {entries : List (Value × Value)}
    (hv : (Value.map entries).isTree = true) :
    Refines (properties scope name entries)
      (properties scope name (keyed (resourceFields (.map entries)))) := by
  unfold properties
  rw [lookup_resourceFields (by decide), Value.lookup_eq_field? hv]
  cases hfield : (Value.map entries).field? "Properties" with
  | none => exact refines_pure _
  | some v => exact (refines_body (Value.isTree_field? hv hfield)).bind fun fs => refines_pure _

private theorem refines_modifiers {entries : List (Value × Value)}
    (hv : (Value.map entries).isTree = true) :
    Refines (modifiers scope entries)
      (modifiers scope (keyed (resourceFields (.map entries)))) := by
  have hpresent : presentModifiers (keyed (resourceFields (.map entries))) =
      (presentModifiers entries).map fun p => (p.1, p.2.listForm) := by
    rw [presentModifiers, presentModifiers, List.map_filterMap]
    refine List.filterMap_congr fun name hname => ?_
    have hne : name ≠ "Properties" := by
      rintro rfl
      exact absurd hname (by decide)
    rw [lookup_resourceFields (List.mem_append_right _ hname), Value.lookup_eq_field? hv,
      Option.map_map, Option.map_map]
    simp only [Function.comp_def, Value.partForm, hne, if_false]
  change Refines ((presentModifiers entries).mapM _)
    ((presentModifiers (keyed (resourceFields (.map entries)))).mapM _)
  rw [hpresent]
  refine .mapM ?_
  rw [List.forall₂_map_right_iff]
  refine List.forall₂_same.2 fun p hp => ?_
  have hfield := (Value.lookup_eq_field? hv _).symm.trans (mem_presentModifiers hp).2
  exact (refines_modifier p.1 (Value.isTree_field? hv hfield)).bind fun e => refines_pure (p.1, e)

private theorem refines_resource (name : String) {v : Value} (hv : v.isTree = true) :
    Refines (resource scope name v) (resource scope name v.resourceForm) := by
  cases v with
  | map entries =>
    have hknown : ∀ field ∈ resourceFields (.map entries), field.1 ∈ resourceKeys := by
      intro field hfield
      obtain ⟨key, hkey, hpart⟩ := List.mem_filterMap.1 hfield
      obtain ⟨part, -, rfl⟩ := Option.map_eq_some_iff.1 hpart
      exact hkey
    exact (refines_resourceType name hv).bind fun type =>
      (refines_warnings resourceKeys (.unknownKey · name) entries hknown).bind fun _ =>
        (refines_properties name hv).bind fun props =>
          (refines_modifiers hv).bind fun mods => refines_pure _
  | knot | link => simp [Value.isTree] at hv
  | _ => exact refines_reject

private theorem refines_declaration (kind : DeclKind) (name : String) {v : Value}
    (hv : v.isTree = true) :
    Refines (declaration scope kind name v)
      (declaration scope kind name (v.declarationForm kind)) := by
  cases kind with
  | resource => exact refines_resource name hv
  | condition =>
    exact (refines_value scope.limit scope.symbols hv).bind fun e => refines_pure _
  | _ => exact (refines_body hv).bind fun fs => refines_pure _

private theorem refines_headerValue (kind : Header) {v : Value} (hv : v.isTree = true) :
    Refines (headerValue scope kind v) (headerValue scope kind v.headerForm) := by
  cases v with
  | map entries =>
    obtain ⟨written, rfl, -, htrees⟩ := Value.isTree_map_iff.1 hv
    have hobject := (@refines_object scope written htrees).bind fun fs =>
      refines_pure (Expr.object fs)
    rw [Value.headerForm, Value.bodyForm, Value.fields_keyed]
    cases kind with
    | formatVersion | description => exact refines_reject
    | transform | metadata | globals => exact hobject
  | scalar value =>
    cases value with
    | str s =>
      cases kind with
      | formatVersion | description | transform => exact refines_pure _
      | metadata | globals => exact refines_reject
    | _ => cases kind <;> exact refines_reject
  | list items =>
    cases kind with
    | transform =>
      simp only [Value.headerForm, headerValue, transform, Value.unfold]
      split
      · exact refines_pure _
      · exact refines_reject
    | _ => exact refines_reject
  | _ => simp [Value.isTree] at hv

/-! ### Templates -/

section Template

variable (hv : (Value.map scope.entries).isTree = true)
include hv

/-- The normal form of the document in scope, with the same names and the same limit. -/
private abbrev normalScope (scope : Scope) : Scope :=
  { scope with entries := keyed (normalFields (.map scope.entries)) }

private theorem refines_headers : Refines (headers scope) (headers (normalScope scope)) := by
  have hpresent : presentHeaders (normalScope scope).entries =
      (presentHeaders scope.entries).map fun p => (p.1, p.2.headerForm) := by
    rw [presentHeaders, presentHeaders, List.map_filterMap]
    refine List.filterMap_congr fun kind _ => ?_
    rw [lookup_keyword, Value.lookup_eq_field? hv, Option.map_map, Option.map_map]
    rfl
  change Refines ((presentHeaders scope.entries).mapM _)
    ((presentHeaders (normalScope scope).entries).mapM _)
  rw [hpresent]
  refine .mapM ?_
  rw [List.forall₂_map_right_iff]
  refine List.forall₂_same.2 fun p hp => ?_
  obtain ⟨kind, -, hp⟩ := List.mem_filterMap.1 hp
  obtain ⟨v, hlookup, rfl⟩ := Option.map_eq_some_iff.1 hp
  have hfield := (Value.lookup_eq_field? hv _).symm.trans hlookup
  exact (refines_headerValue kind (Value.isTree_field? hv hfield)).bind fun e => refines_pure _

/-- A section of a tree has its declarations as entries, or cannot be read. -/
private theorem sectionEntries_cases (kind : DeclKind) :
    sectionEntries scope kind = pure ((Value.map scope.entries).declarations kind) ∨
      ∃ fault, sectionEntries scope kind = reject fault := by
  rw [Value.declarations, sectionEntries, Value.lookup_eq_field? hv]
  cases hfield : (Value.map scope.entries).field? kind.sectionKey with
  | none => exact .inl rfl
  | some v =>
    have htree := Value.isTree_field? hv hfield
    rw [Option.map_some, Value.unfold_eq_self htree, Option.getD_some]
    cases v with
    | map entries =>
      obtain ⟨written, rfl, -⟩ := Value.isTree_map_iff.1 htree
      refine .inl (congrArg pure ?_)
      rw [Value.fields_keyed, keyed, List.map_map]
      exact List.map_id _
    | scalar value =>
      cases value with
      | null => exact .inl rfl
      | _ => exact .inr ⟨_, rfl⟩
    | list items => exact .inr ⟨_, rfl⟩
    | _ => simp [Value.isTree] at htree

omit hv in
/-- A section of a normal form has the normal forms of the declarations as entries. -/
private theorem sectionEntries_normalScope (kind : DeclKind) :
    sectionEntries (normalScope scope) kind =
      pure (((Value.map scope.entries).declarations kind).map fun declaration =>
        (declaration.1, declaration.2.declarationForm kind)) := by
  rw [sectionEntries, lookup_sectionKey, Value.declarationsForm?]
  split_ifs with hempty
  · rw [List.isEmpty_iff.1 hempty.1]
    rfl
  · refine congrArg pure ?_
    rw [keyed, List.map_map]
    exact List.map_id _

private theorem refines_assignments (kind : DeclKind) :
    Refines (assignments scope kind) (assignments (normalScope scope) kind) := by
  unfold assignments
  rw [sectionEntries_normalScope]
  obtain hentries | ⟨fault, hentries⟩ := sectionEntries_cases hv kind
  · rw [hentries, pure_bind, pure_bind]
    refine .mapM ?_
    rw [List.forall₂_map_right_iff]
    refine List.forall₂_same.2 fun declaration hd => ?_
    have htree := (Value.isTree_declarations hv kind).2 declaration hd
    exact (refines_declaration kind declaration.1 htree).bind fun e => refines_pure _
  · rw [hentries]
    exact refines_throw

/-- The normal form of a tree is read as whatever the tree is read as. -/
private theorem refines_template : Refines (template scope) (template (normalScope scope)) := by
  have hknown : ∀ field ∈ normalFields (.map scope.entries), field.1 ∈ sectionOrder := by
    intro field hfield
    obtain ⟨key, hkey, hsection⟩ := List.mem_filterMap.1 hfield
    obtain ⟨v, -, rfl⟩ := Option.map_eq_some_iff.1 hsection
    exact hkey
  have hassignments : Refines (declarationOrder.mapM (assignments scope))
      (declarationOrder.mapM (assignments (normalScope scope))) :=
    .mapM (List.forall₂_same.2 fun kind _ => refines_assignments hv kind)
  exact (refines_warnings sectionOrder .unknownSection scope.entries hknown).bind fun _ =>
    (refines_headers hv).bind fun first => hassignments.bind fun rest => refines_pure _

/-- The normal form of a tree declares the same names. -/
private theorem ofDocument?_normalFields :
    SymbolTable.ofDocument? (keyed (normalFields (.map scope.entries))) =
      SymbolTable.ofDocument? scope.entries := by
  have hnames (kind : DeclKind) :
      SymbolTable.sectionNames? (keyed (normalFields (.map scope.entries))) kind =
        SymbolTable.sectionNames? scope.entries kind := by
    rw [sectionNames?_eq hv, SymbolTable.sectionNames?, lookup_sectionKey,
      Value.declarationsForm?]
    split_ifs with hempty
    · rw [List.isEmpty_iff.1 hempty.1]
      rfl
    · refine (mapM_nameOfKey?_keyed _).trans (congrArg some ?_)
      rw [List.map_map]
      rfl
  simp only [SymbolTable.ofDocument?, hnames]

end Template

/-- A tree and its normal form have the same template. -/
theorem decompileTemplate_normalForm {limit : Nat} {document : Value} {t : Template}
    (hv : document.isTree = true) (h : (decompileTemplate limit document).1 = .ok t) :
    (decompileTemplate limit document.normalForm).1 = .ok t := by
  unfold decompileTemplate at h ⊢
  split at h
  · cases h
  next scope hscope =>
    obtain ⟨rfl, hsymbols, rfl⟩ := Scope.eq_of_ofDocument hv hscope
    have hnormal : Scope.ofDocument scope.limit (Value.map scope.entries).normalForm =
        .ok (normalScope scope) := by
      have htable := (ofDocument?_normalFields hv).trans hsymbols
      simp only [Scope.ofDocument, Value.normalForm, Value.unfold]
      rw [← normalFields, htable]
    obtain ⟨u, hrun, -⟩ := refines_template hv {} {} t _ rfl (Prod.ext h rfl)
    simp only [hnormal, hrun]

end Decompile

/-- **The script of a document is a fixed point.** Take a tree in which no reference stands where a
script has a plain name. If it has a script, with some settings, then that script is compiled with
all settings that allow two levels more, and the document it is compiled to has, with the former
settings, the very same script. -/
theorem decompile_of_decompile {settings settings' : Settings} {document : Value}
    {text : List Char} (htree : document.isTree = true) (hplain : document.HasPlainNames)
    (h : (decompile settings document).1 = .ok text)
    (hdepth : settings.maxDepth + 2 ≤ settings'.maxDepth) :
    ∃ t document', parseScript settings'.maxDepth text = .ok t ∧ t.toDocument = .ok document' ∧
      (decompile settings document').1 = .ok text := by
  obtain ⟨t, ht, htext⟩ := exists_layout_of_decompile h
  obtain ⟨scope, hscope, hreads⟩ := Decompile.exists_templateReads ht
  have hnormal := Decompile.decompileTemplate_normalForm htree ht
  obtain ⟨rfl, hsymbols, hlimit⟩ := Decompile.Scope.eq_of_ofDocument htree hscope
  obtain ⟨raw, hraw, -⟩ := bind_eq_ok_iff.1 htext
  have hreadable : t.IsReadable settings'.maxDepth :=
    hreads.isReadable htree hplain (hlimit ▸ settings.maxDepth_pos) (hlimit ▸ hdepth) ⟨raw, hraw⟩
  obtain ⟨t', ht', hlines⟩ := hreadable.exists_parseScript_of_layout hreads.isLegible htext
  refine ⟨t', (Value.map scope.entries).normalForm, ht', ?_, ?_⟩
  · rw [← Template.toDocument_withoutLines_eq_ok_iff, hlines,
      Template.toDocument_withoutLines_eq_ok_iff]
    exact hreads.toDocument_eq hsymbols htree hplain
  · simp only [decompile, hnormal, Except.bind, htext]
    rfl

/-- A document with sections in another order, an unknown section and an attribute in one string. -/
private def mirrorDocument : Value :=
  .map (keyed [
    ("Outputs", .map (keyed [("Size", .map (keyed
      [("Value", .single "Fn::GetAtt" (.str "Disk.Size"))]))])),
    ("Extra", .bool true),
    ("Resources", .map (keyed [("Disk", .map (keyed
      [("DependsOn", .str "Size"), ("Note", .null), ("Type", .str "D")]))]))])

/-- The script of the document with an unknown section is a fixed point. -/
theorem decompile_of_decompile_mirrorDocument :
    ∃ text t document', (decompile { maxDepth := 1 } mirrorDocument).1 = .ok text ∧
      parseScript 3 text = .ok t ∧ t.toDocument = .ok document' ∧
      (decompile { maxDepth := 1 } document').1 = .ok text := by
  have hplain : mirrorDocument.HasPlainNames :=
    ⟨by decide +kernel, by decide +kernel, by decide +kernel⟩
  have hscript : (decompile { maxDepth := 1 } mirrorDocument).1.toOption.isSome = true := by
    decide +kernel
  cases htext : (decompile { maxDepth := 1 } mirrorDocument).1 with
  | error e => simp [htext, Except.toOption] at hscript
  | ok text =>
    obtain ⟨t, document', ht, hdocument, hagain⟩ := @decompile_of_decompile { maxDepth := 1 }
      { maxDepth := 3 } mirrorDocument text (by decide +kernel) hplain htext le_rfl
    exact ⟨text, t, document', rfl, ht, hdocument, hagain⟩

end StackScript
