import StackScript.Proofs.Decompile.Readable

/-!
# Resources come back from their declarations

A resource is read as its type, its properties and its modifiers, and each of these denotes what it
was read from. Names of other declarations stand alone in `DependsOn` and `Condition`, so references
to them come back as names there. A policy is a plain name too: where it is given by a reference
that is read as a bare name, the name comes back in place of the reference.

## Main definitions

* `Value.resourceWith`: the known keys of a resource, with the value of each in some form.
* `Value.ownForm`: what stands under a key of a resource, with names for references where a resource
  names other declarations.
* `Value.returnedForm`: what comes back, where also policies may be names for references.

## Main results

* `Decompile.modifierValue_of_modifierReads`, `Decompile.resourceValue_of_reads`: what the modifiers
  of a resource denote, and the resource itself.
* `Decompile.declarationValue_of_resource`: a resource comes back unless a policy is misread.
-/

namespace StackScript

namespace Value

/-! ### Forms of resources -/

/-- The known keys of a resource in their fixed order, with the value of each in some form. -/
def resourceParts (form : String → Value → Value) (v : Value) : List (String × Value) :=
  Decompile.resourceKeys.filterMap fun key => (v.field? key).map fun part => (key, form key part)

/-- The resource that consists of these parts. -/
def resourceWith (form : String → Value → Value) (v : Value) : Value :=
  .map (keyed (v.resourceParts form))

theorem resourceForm_eq (v : Value) : v.resourceForm = v.resourceWith partForm := rfl

section Parts

variable (form : String → Value → Value) (v : Value)

theorem nodup_resourceParts : ((v.resourceParts form).map Prod.fst).Nodup := by
  have hkeys := Decompile.map_fst_filterMap (fun key => (v.field? key).map (form key))
    Decompile.resourceKeys
  simp only [Option.map_map, Function.comp_def] at hkeys
  rw [resourceParts, hkeys]
  exact List.Nodup.filter _ (by decide)

/-- A known key is present exactly where it was. -/
theorem field?_resourceWith {key : String} (hkey : key ∈ Decompile.resourceKeys) :
    (v.resourceWith form).field? key = (v.field? key).map (form key) := by
  have hlookup := Decompile.lookup_filterMap (fun key => (v.field? key).map (form key))
    Decompile.resourceKeys key
  rw [if_pos hkey] at hlookup
  simp only [Option.map_map, Function.comp_def] at hlookup
  rw [resourceWith, field?_keyed, resourceParts, hlookup]

end Parts

theorem resourceWith_congr {form form' : String → Value → Value} {v : Value}
    (h : ∀ key part, v.field? key = some part → form key part = form' key part) :
    v.resourceWith form = v.resourceWith form' := by
  unfold resourceWith resourceParts
  congr 2
  refine List.filterMap_congr fun key _ => ?_
  cases hpart : v.field? key with
  | none => rfl
  | some part => simp [h key part hpart]

/-- What stands under a key of a resource. References to other declarations stand for their
names. -/
def ownForm (key : String) (part : Value) : Value :=
  if referenceModifiers.contains key then part.listForm.unwrapReference else part.partForm key

/-- What comes back under a key of a resource. A policy comes back as a name if it is read as a bare
name. -/
def returnedForm (symbols : SymbolTable) (key : String) (part : Value) : Value :=
  if (policyValues? key).isSome && part.readsAsName symbols then part.listForm.unwrapReference
  else part.ownForm key

/-- A reference is not the name that it is unwrapped to. -/
private theorem unwrapReference_ne {symbols : SymbolTable} {v : Value}
    (h : v.readsAsName symbols = true) : v.listForm.unwrapReference ≠ v.listForm := by
  have hreference := isReference_of_readsAsName h
  unfold isReference at hreference
  split at hreference
  next key x =>
    have hkey : key = "Ref" ∨ key = "Condition" := by simpa using hreference
    have hform : listForm (.map (keyed [(key, .str x)])) = .map (keyed [(key, .str x)]) := by
      rw [listForm_keyed, fieldListForms, List.map_singleton, listForm_scalar]
      rcases hkey with rfl | rfl <;> rfl
    rw [keyed_cons, keyed_nil] at hform
    rw [hform]
    simp [unwrapReference, hkey]
  · cases hreference

/-- What comes back is a resource's own, unless a policy is read as a bare name. -/
private theorem resourceWith_returnedForm_eq_iff {symbols : SymbolTable} {v : Value} :
    v.resourceWith (returnedForm symbols) = v.resourceWith ownForm ↔
      ∀ key ∈ ["DeletionPolicy", "UpdateReplacePolicy"],
        (v.field? key).any (readsAsName symbols) = false := by
  have hknown : ∀ key ∈ ["DeletionPolicy", "UpdateReplacePolicy"],
      key ∈ Decompile.resourceKeys ∧ (policyValues? key).isSome = true ∧
        referenceModifiers.contains key = false ∧ key ≠ "Properties" := by decide
  constructor
  · intro h key hkey
    cases hpart : v.field? key with
    | none => rfl
    | some part =>
      rw [Option.any_some, Bool.eq_false_iff]
      intro hreads
      obtain ⟨hmem, hpolicy, hnames, hne⟩ := hknown key hkey
      have hfield := congrArg (field? · key) h
      simp only [field?_resourceWith _ _ hmem, hpart, Option.map_some, Option.some.injEq,
        returnedForm, ownForm, partForm, hpolicy, hreads, hnames, if_neg hne,
        Bool.and_self, Bool.false_eq_true, if_true, if_false] at hfield
      exact unwrapReference_ne hreads hfield
  · intro h
    refine resourceWith_congr fun key part hpart => if_neg fun hnamed => ?_
    rw [Bool.and_eq_true, Option.isSome_iff_exists] at hnamed
    obtain ⟨⟨allowed, hallowed⟩, hreads⟩ := hnamed
    have hplain := h key (Decompile.mem_of_policyValues? hallowed)
    rw [hpart, Option.any_some, hreads] at hplain
    cases hplain

end Value

namespace Decompile

variable {scope : Scope}

/-! ### Values -/

/-- A value that is read denotes its list form. -/
theorem toValue_of_valueReads {v : Value} {e : Expr} (hv : v.isTree = true)
    (hm : v.misplaces = false) (h : ValueReads scope v e) :
    e.toValue scope.symbols = .ok v.listForm := by
  obtain ⟨levels, -, h⟩ := h
  exact (toValue_of_readsAs hv h).2 (Value.misreads_eq_false _ v hm)

private theorem fieldValues_of_fieldsRead {entries : List (Value × Value)}
    {fields : List (String × Expr)} (hv : (Value.map entries).isTree = true)
    (hm : (Value.map entries).misplaces = false) (h : FieldsRead scope entries fields) :
    Expr.fieldValues scope.symbols fields =
      .ok (Value.fieldListForms (Value.map entries).fields) := by
  have htrees := (Value.isTree_fields hv).2
  have hplaces := Value.misplaces_of_mem_fields hm
  obtain ⟨written, rfl, -⟩ := Value.isTree_map_iff.1 hv
  rw [Value.fields_keyed] at htrees hplaces ⊢
  rw [Expr.fieldValues_eq_ok_iff, Value.fieldListForms, List.forall₂_map_right_iff]
  have hfields := (List.forall₂_and_left written fields).2
    ⟨fun w hw => And.intro (htrees w hw) (hplaces w hw), forall₂_of_keyed h⟩
  refine hfields.flip.imp ?_
  rintro f w ⟨⟨htree, hplace⟩, hkey, hread⟩
  exact ⟨hkey, toValue_of_valueReads htree hplace hread⟩

/-- Properties that were read from a mapping denote it, with the values of its fields in list
form. -/
theorem toValue_of_fieldsRead {v : Value} {entries : List (Value × Value)}
    {fields : List (String × Expr)} (hv : v.isTree = true) (hm : v.misplaces = false)
    (hentries : v.unfold = .map entries) (h : FieldsRead scope entries fields) :
    (Expr.object fields).toValue scope.symbols = .ok v.bodyForm := by
  rw [Value.unfold_eq_self hv] at hentries
  subst hentries
  rw [Expr.toValue, fieldValues_of_fieldsRead hv hm h]
  refine congrArg Except.ok (Value.ofFields_eq_map ?_)
  rw [Value.fieldListForms, List.map_map]
  exact (Value.isTree_fields hv).1

/-! ### Modifiers -/

/-- A bare name denotes a reference to it. -/
private theorem unwrapReference_of_nameValue {symbols : SymbolTable} {x : String} {v : Value}
    (h : Expr.nameValue symbols x = .ok v) : v.unwrapReference = .str x := by
  unfold Expr.nameValue at h
  split_ifs at h <;> · cases h; rfl

/-- A declared name denotes a reference to it, or the name itself. -/
private theorem exists_toValue_declaredName (symbols : SymbolTable) (x : String) :
    ∃ v, (declaredName symbols x).toValue symbols = .ok v ∧ v.unwrapReference = .str x := by
  unfold declaredName
  split_ifs with hname
  · have hvalue : ∃ v, Expr.nameValue symbols x = .ok v := by
      rw [Bool.and_eq_true] at hname
      unfold Expr.nameValue
      split_ifs
      · exact ⟨_, rfl⟩
      · exact ⟨_, rfl⟩
      · exact ⟨_, rfl⟩
      · exact absurd hname.1 ‹_›
    obtain ⟨v, hv⟩ := hvalue
    exact ⟨v, hv, unwrapReference_of_nameValue hv⟩
  · exact ⟨_, rfl, rfl⟩

/-- A modifier that names other declarations is no policy. -/
private theorem policyValues?_eq_none {modifier : String}
    (h : referenceModifiers.contains modifier = true) : policyValues? modifier = none := by
  have hnone : ∀ modifier ∈ referenceModifiers, policyValues? modifier = none := by decide
  exact hnone modifier (List.contains_iff_mem.1 h)

private theorem modifierValue_eq {symbols : SymbolTable} {modifier : String} {e : Expr}
    (h : referenceModifiers.contains modifier = true) :
    Expr.modifierValue symbols modifier e = Value.unwrapReference <$> e.toValue symbols := by
  unfold Expr.modifierValue
  split
  next hsome => exact absurd ((policyValues?_eq_none h).symm.trans hsome) (by simp)
  · exact if_pos h

private theorem returnedForm_eq {symbols : SymbolTable} {modifier : String} {v : Value}
    (h : referenceModifiers.contains modifier = true) :
    v.returnedForm symbols modifier = v.listForm.unwrapReference := by
  rw [Value.returnedForm, Value.ownForm, policyValues?_eq_none h, if_pos h]
  exact ite_self _

/-- A list of declared names denotes the list of the names. -/
private theorem modifierValue_names {symbols : SymbolTable} {modifier : String}
    (hr : referenceModifiers.contains modifier = true) (names : List String) :
    Expr.modifierValue symbols modifier (.array (names.map (declaredName symbols))) =
      .ok ((Value.list (names.map .str)).returnedForm symbols modifier) := by
  -- Each name denotes a value that is unwrapped to the name.
  choose w hw using exists_toValue_declaredName symbols
  have hvalues : Expr.values symbols (names.map (declaredName symbols)) = .ok (names.map w) := by
    rw [Expr.values_eq_ok_iff, List.forall₂_map_left_iff, List.forall₂_map_right_iff]
    exact List.forall₂_same.2 fun name _ => (hw name).1
  rw [modifierValue_eq hr, Expr.toValue, hvalues, returnedForm_eq hr]
  refine congrArg Except.ok ?_
  rw [Value.unwrapReference_list, Value.listForm_list, Value.unwrapReference_list, List.map_map,
    List.map_map, List.map_map]
  refine congrArg Value.list (List.map_congr_left fun name _ => ?_)
  rw [Function.comp_apply, (hw name).2, Function.comp_apply, Function.comp_apply,
    Value.listForm_scalar]
  rfl

/-- What a modifier denotes that is read as any other value. -/
private theorem modifierValue_of_valueReads {name : String} {v : Value} {e : Expr}
    (hname : name ≠ "Properties") (hv : v.isTree = true) (hm : v.misplaces = false)
    (h : ValueReads scope v e) :
    Expr.modifierValue scope.symbols name e = .ok (v.returnedForm scope.symbols name) := by
  have hvalue := toValue_of_valueReads hv hm h
  have hbare : v.readsAsName scope.symbols = true ↔ ∃ x, e = .name x := by
    obtain ⟨levels, -, h⟩ := h
    cases levels with
    | zero => exact h.elim
    | succ levels => exact readsAsName_iff hv h
  unfold Expr.modifierValue
  split
  next x hsome =>
    -- A bare name for a policy stands for a reference, and comes back as the name.
    rw [Value.returnedForm, hsome, hbare.2 ⟨x, rfl⟩]
    exact congrArg Except.ok (unwrapReference_of_nameValue hvalue).symm
  next hpolicy =>
    have hreturned : v.returnedForm scope.symbols name = v.ownForm name := by
      refine if_neg fun h => ?_
      rw [Bool.and_eq_true, Option.isSome_iff_exists] at h
      obtain ⟨⟨allowed, hallowed⟩, hreads⟩ := h
      obtain ⟨x, rfl⟩ := hbare.1 hreads
      exact hpolicy allowed x hallowed rfl
    rw [hreturned, Value.ownForm]
    split_ifs with hr
    · rw [hvalue]
      rfl
    · rw [hvalue, Value.partForm, if_neg hname]

/-- What a modifier denotes. -/
theorem modifierValue_of_modifierReads {name : String} {v : Value} {e : Expr}
    (hname : name ≠ "Properties") (hv : v.isTree = true) (hm : v.misplaces = false)
    (h : ModifierReads scope name v e) :
    Expr.modifierValue scope.symbols name e = .ok (v.returnedForm scope.symbols name) := by
  have hself := Value.unfold_eq_self hv
  cases h with
  | @policy s hs hallowed =>
    obtain rfl := hself.symm.trans hs
    cases hp : policyValues? name with
    | none => simp [hp] at hallowed
    | some allowed =>
      have hreference : referenceModifiers.contains name = false := by
        rw [Bool.eq_false_iff]
        exact fun hr => absurd ((policyValues?_eq_none hr).symm.trans hp) (by simp)
      have hown : (Value.str s).ownForm name = .str s := by
        rw [Value.ownForm, hreference, Value.partForm, if_neg hname, Value.listForm_scalar]
        rfl
      simp [Expr.modifierValue, hp, Value.returnedForm, Value.readsAsName, hown]
  | @declared s hr hs =>
    obtain rfl := hself.symm.trans hs
    obtain ⟨w, hw, hunwrap⟩ := exists_toValue_declaredName scope.symbols s
    rw [modifierValue_eq hr, hw, returnedForm_eq hr, Value.listForm_scalar]
    exact congrArg Except.ok hunwrap
  | @names items names hr hs hn =>
    obtain rfl := hself.symm.trans hs
    obtain rfl := allStrings?_eq_some hn
    exact modifierValue_names hr names
  | value h => exact modifierValue_of_valueReads hname hv hm h

/-! ### Resources -/

/-- What the properties of a resource denote. -/
theorem propertiesEntry_of_rel {entries : List (Value × Value)}
    {properties : Option (List (String × Expr))} (hv : (Value.map entries).isTree = true)
    (hm : (Value.map entries).misplaces = false)
    (h : Option.Rel (fun v fields => ∃ inner, v.unfold = .map inner ∧ FieldsRead scope inner fields)
      (Value.lookup "Properties" entries) properties) :
    Expr.propertiesEntry scope.symbols properties =
      .ok ((Value.map entries).field? "Properties" |>.map fun part =>
        ("Properties", part.bodyForm)).toList := by
  rw [← Value.lookup_eq_field? hv]
  generalize hlookup : Value.lookup "Properties" entries = found at h
  cases h with
  | none => rfl
  | @some part fields h =>
    obtain ⟨inner, hinner, hf⟩ := h
    have hfield := (Value.lookup_eq_field? hv _).symm.trans hlookup
    have hvalue := toValue_of_fieldsRead (Value.isTree_field? hv hfield)
      (Value.misplaces_of_mem_fields hm _ (Value.mem_fields_of_field? hfield)) hinner hf
    have hentry : Expr.propertiesEntry scope.symbols (some fields) =
        (fun v => [("Properties", v)]) <$> (Expr.object fields).toValue scope.symbols := by
      rw [Expr.toValue, Expr.propertiesEntry]
      cases Expr.fieldValues scope.symbols fields <;> rfl
    rw [hentry, hvalue]
    rfl

/-- What the modifiers of a resource denote. -/
theorem modifierValues_of_forall₂ {entries : List (Value × Value)}
    {modifiers : List (String × Expr)} (hv : (Value.map entries).isTree = true)
    (hm : (Value.map entries).misplaces = false)
    (h : List.Forall₂ (fun p m => p.1 = m.1 ∧ ModifierReads scope p.1 p.2 m.2)
      (presentModifiers entries) modifiers) :
    Expr.modifierValues scope.symbols modifiers =
      .ok ((presentModifiers entries).map fun p =>
        (p.1, p.2.returnedForm scope.symbols p.1)) := by
  rw [Expr.modifierValues_eq_mapM, mapM_eq_ok_iff, List.forall₂_map_right_iff]
  have hpresent := (List.forall₂_and_left _ _).2 ⟨fun p hp => mem_presentModifiers hp, h⟩
  refine hpresent.flip.imp fun m p ⟨⟨hname, hlookup⟩, hkey, hread⟩ => ?_
  have hfield := (Value.lookup_eq_field? hv _).symm.trans hlookup
  have hne : p.1 ≠ "Properties" := by
    intro heq
    rw [heq] at hname
    exact absurd hname (by decide)
  rw [← hkey, modifierValue_of_modifierReads hne (Value.isTree_field? hv hfield)
    (Value.misplaces_of_mem_fields hm _ (Value.mem_fields_of_field? hfield)) hread]
  rfl

/-- What a resource denotes. -/
theorem declarationValue_of_resourceReads {v : Value} {e : Expr} (hv : v.isTree = true)
    (hm : v.misplaces = false) (h : DeclarationReads scope .resource v e) :
    e.declarationValue scope.symbols = .ok (v.resourceWith (Value.returnedForm scope.symbols)) := by
  generalize hkind : DeclKind.resource = kind at h
  cases h with
  | condition => cases hkind
  | @body kind => cases kind <;> cases hkind
  | @resource v entries type properties modifiers hs ht hne hp hmodifiers =>
    rw [Value.unfold_eq_self hv] at hs
    subst hs
    have hparts : (Value.map entries).resourceParts (Value.returnedForm scope.symbols) =
        ("Type", .str type) :: ((Value.map entries).field? "Properties" |>.map fun part =>
          ("Properties", part.bodyForm)).toList ++
          (presentModifiers entries).map fun p => (p.1, p.2.returnedForm scope.symbols p.1) := by
      rw [Value.resourceParts, resourceKeys, List.filterMap_append]
      refine congrArg₂ (· ++ ·) ?_ ?_
      · have htype := (Value.lookup_eq_field? hv _).symm.trans ht
        cases hproperties : (Value.map entries).field? "Properties" <;>
          simp [htype, hproperties, Value.returnedForm, Value.ownForm, Value.partForm,
            policyValues?, referenceModifiers]
      · rw [presentModifiers, List.map_filterMap]
        refine List.filterMap_congr fun name _ => ?_
        rw [Value.lookup_eq_field? hv, Option.map_map]
        rfl
    rw [Expr.declarationValue, Expr.resourceValue_eq, propertiesEntry_of_rel hv hm hp,
      modifierValues_of_forall₂ hv hm hmodifiers]
    refine congrArg Except.ok ?_
    rw [← hparts, Value.ofFields_eq_map (Value.nodup_resourceParts _ _), Value.resourceWith]

/-- **Resources come back, but for their policies.** Take the entry of a resource, a tree with no
reference in place of the plain name that `If` or `FindInMap` takes. If it is read, then its
declaration denotes the entry with its type, its properties and its modifiers where it has them.
This is the entry's own value unless a policy is given by a reference that is read as a bare name:
such a policy comes back as a name. -/
theorem declarationValue_of_resource {scope : Scope} {name : String} {v : Value} {d : Expr}
    {state after : DecompileState} (htree : v.isTree = true) (hplaces : v.misplaces = false)
    (h : (resource scope name v).run.run state = (.ok d, after)) :
    d.declarationValue scope.symbols = .ok (v.resourceWith (Value.returnedForm scope.symbols)) ∧
    (d.declarationValue scope.symbols = .ok (v.resourceWith Value.ownForm) ↔
      ∀ key ∈ ["DeletionPolicy", "UpdateReplacePolicy"],
        (v.field? key).any (Value.readsAsName scope.symbols) = false) := by
  have hgives : Gives (declaration scope .resource name v) d := ⟨state, after, h⟩
  have hvalue :=
    declarationValue_of_resourceReads htree hplaces (declarationReads_of_gives hgives)
  refine ⟨hvalue, ?_⟩
  rw [hvalue, Except.ok.injEq, Value.resourceWith_returnedForm_eq_iff]

/-- A document with a parameter. -/
private def parameterDocument : Value :=
  .single "Parameters" (.single "Size" (.single "Type" (.str "String")))

/-- A resource with an unknown key, a reference in place of a name, an attribute in one string, and
policies that are no bare names. -/
private def diskEntry : Value :=
  .map (Value.keyed [
    ("UpdateReplacePolicy", .single "Ref" (.str "Other")), ("Note", .int 1),
    ("DependsOn", .list [.single "Ref" (.str "Size"), .str "Net"]), ("Type", .str "Disk"),
    ("DeletionPolicy", .single "Fn::GetAtt" (.str "Net.Policy")),
    ("Properties", .single "Size" (.single "Ref" (.str "Size")))])

/-- The disk comes back with the keys and the values that it had. -/
theorem declarationValue_of_resource_diskEntry :
    ∃ scope d after, Scope.ofDocument 100 parameterDocument = .ok scope ∧
      (resource scope "Data" diskEntry).run.run {} = (.ok d, after) ∧
      d.declarationValue scope.symbols = .ok (.map (Value.keyed [
        ("Type", .str "Disk"), ("Properties", .single "Size" (.single "Ref" (.str "Size"))),
        ("DependsOn", .list [.str "Size", .str "Net"]),
        ("DeletionPolicy", .single "Fn::GetAtt" (.list [.str "Net", .str "Policy"])),
        ("UpdateReplacePolicy", .single "Ref" (.str "Other"))])) := by
  let scope : Scope := ⟨100, { parameters := ["Size"] }, [(.str "Parameters",
    .single "Size" (.single "Type" (.str "String")))]⟩
  have hread : ((resource scope "Data" diskEntry).run.run {}).1.toOption.isSome = true := by
    decide +kernel
  cases hrun : (resource scope "Data" diskEntry).run.run {} with
  | mk result after =>
    cases result with
    | error e => simp [hrun, Except.toOption] at hread
    | ok d =>
      have hvalue := (declarationValue_of_resource (by decide +kernel) (by decide +kernel) hrun).2.2
        (by decide +kernel)
      exact ⟨scope, d, after, rfl, hrun, hvalue⟩

/-- A resource whose policy is given by a reference to a parameter. -/
private def policyEntry : Value :=
  .map (Value.keyed [("Type", .str "Disk"), ("DeletionPolicy", .single "Ref" (.str "Size"))])

/-- The reference to the parameter comes back as the name of the parameter. -/
theorem declarationValue_policyEntry_ne :
    ∃ scope d after, Scope.ofDocument 100 parameterDocument = .ok scope ∧
      policyEntry.isTree = true ∧ policyEntry.misplaces = false ∧
      (resource scope "Data" policyEntry).run.run {} = (.ok d, after) ∧
      d.declarationValue scope.symbols = .ok (.map (Value.keyed
        [("Type", .str "Disk"), ("DeletionPolicy", .str "Size")])) ∧
      d.declarationValue scope.symbols ≠ .ok (policyEntry.resourceWith Value.ownForm) := by
  refine ⟨_, .resource "Disk" none [("DeletionPolicy", .name "Size")], {}, rfl, by decide +kernel,
    by decide +kernel, ?_, ?_, ?_⟩
  · rfl
  · rfl
  · intro h
    cases h

end Decompile

end StackScript
