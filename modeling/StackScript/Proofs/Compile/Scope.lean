import StackScript.Proofs.Compile.Values
import StackScript.Proofs.Template.WellFormed

/-!
# Scope errors

A template has a document unless something in it is out of scope. Four things can be: a declaration
that is not assigned, the base of an attribute access that is no declared resource, a plain name in
the first argument of `If` or `FindInMap` that is no declared condition or mapping, and any other
name that is not declared. Each is a fault of one occurrence of an expression, and compilation fails
if and only if there is one.

## Main definitions

* `Template.Declares`: a name is declared as one of a kind.
* `Template.ScopeFault`: an expression at a place is out of scope.

## Main results

* `Expr.exists_toValue_iff`: an expression has a value if and only if nothing in it is out of scope.
* `Expr.exists_declarationValue_iff`: the same for the right side of an assignment.
* `toDocument_fails_iff_scopeFault`: templates that are read fail to compile only by scope errors.
-/

namespace StackScript

/-! ### Faults -/

namespace Template

/-- A name is declared as one of a kind. -/
def Declares (t : Template) (kind : DeclKind) (x : String) : Prop :=
  x ∈ (t.declarations kind).map Prod.fst

/-- An expression at a place is out of scope. -/
inductive ScopeFault (t : Template) : Place → Expr → Prop
  | misplaced {place : Place} {e : Expr} (he : e.isDeclaration = true) (hp : place ≠ .assigned) :
      ScopeFault t place e
  | member {place : Place} {base : Expr} {path : List String}
      (hb : ∀ x, base = .name x → ¬ t.Declares .resource x) : ScopeFault t place (.member base path)
  | bracket {place : Place} {base : Expr} {path : List String}
      (hb : ∀ x, base = .name x → ¬ t.Declares .resource x) :
      ScopeFault t place (.bracket base path)
  | condition {x : String} (hx : ¬ t.Declares .condition x) :
      ScopeFault t .conditionName (.name x)
  | mapping {x : String} (hx : ¬ t.Declares .mapping x) : ScopeFault t .mappingName (.name x)
  | undeclared {place : Place} {x : String}
      (hp : place ∉ [.policy, .conditionName, .mappingName]) (hpseudo : Expr.isPseudo x = false)
      (hx : ∀ kind ∈ [.parameter, .condition, .resource, .mapping], ¬ t.Declares kind x) :
      ScopeFault t place (.name x)

/-- Something in an expression at a place is out of scope. -/
def HasFault (t : Template) (place : Place) (e : Expr) : Prop :=
  ∃ place' e', StackScript.Occurs place e place' e' ∧ t.ScopeFault place' e'

variable {t : Template}

theorem hasFault_iff {place : Place} {e : Expr} :
    t.HasFault place e ↔ t.ScopeFault place e ∨ ∃ c ∈ e.children, t.HasFault c.1 c.2 :=
  exists_occurs_iff

@[simp] theorem hasFault_name {place : Place} {x : String} :
    t.HasFault place (.name x) ↔ t.ScopeFault place (.name x) := by
  rw [hasFault_iff]
  simp [Expr.children]

/-- The table of names of a template says what it declares. -/
theorem mem_names_iff {kind : DeclKind} {x : String} :
    x ∈ (SymbolTable.ofTemplate t).names kind ↔ t.Declares kind x := by
  have hnames : (SymbolTable.ofTemplate t).names kind =
      (t.statements.filterMap (SymbolTable.declaredName? kind)).eraseDups := by
    cases kind <;> rfl
  have hdeclared : t.statements.filterMap (SymbolTable.declaredName? kind) =
      (t.declarations kind).map Prod.fst := by
    rw [declarations, List.map_filterMap]
    congr 1
    funext st
    cases st with
    | header => rfl
    | assign name value line =>
      simp only [SymbolTable.declaredName?]
      split_ifs <;> rfl
  rw [hnames, List.mem_eraseDups, hdeclared, Declares]

/-- The place matters to names and declarations only. -/
theorem hasFault_place {place : Place} {e : Expr} (hname : ∀ x, e ≠ .name x)
    (hp : place ≠ .assigned) : t.HasFault place e ↔ t.HasFault .value e := by
  have hself {p p' : Place} (hp' : p' ≠ .assigned) (h : t.ScopeFault p e) : t.ScopeFault p' e := by
    cases h with
    | misplaced he => exact .misplaced he hp'
    | member hb => exact .member hb
    | bracket hb => exact .bracket hb
    | condition => exact absurd rfl (hname _)
    | mapping => exact absurd rfl (hname _)
    | undeclared => exact absurd rfl (hname _)
  rw [hasFault_iff, hasFault_iff]
  exact or_congr_left ⟨hself (by decide), hself hp⟩

end Template

namespace Expr

variable {t : Template}

/-! ### Expressions -/

/-- A name has a value if it is that of a pseudo parameter or may refer to something declared. -/
private theorem exists_nameValue {symbols : SymbolTable} {x : String} :
    (∃ v, nameValue symbols x = .ok v) ↔
      isPseudo x = true ∨ symbols.isReferenceable x = true := by
  unfold nameValue
  by_cases hpseudo : isPseudo x = true
  · simp [hpseudo]
  by_cases hcondition : symbols.isConditionReference x = true
  · have hreference : symbols.isReferenceable x = true := by
      simp only [SymbolTable.isConditionReference, Bool.and_eq_true] at hcondition
      simp only [SymbolTable.isReferenceable, hcondition.1, Bool.or_true, Bool.true_or]
    simp [hpseudo, hcondition, hreference]
  by_cases hreference : symbols.isReferenceable x = true <;> simp [hpseudo, hcondition, hreference]

private theorem isReferenceable_iff {x : String} :
    (SymbolTable.ofTemplate t).isReferenceable x = true ↔
      ∃ kind ∈ [DeclKind.parameter, .condition, .resource, .mapping], t.Declares kind x := by
  simp only [SymbolTable.isReferenceable, Bool.or_eq_true, List.contains_iff_mem, or_assoc,
    List.exists_mem_cons_iff, List.not_mem_nil, false_and, exists_false, or_false,
    ← Template.mem_names_iff, SymbolTable.names]

private theorem toValue_name_iff {x : String} :
    (∃ v, toValue (.ofTemplate t) (.name x) = .ok v) ↔ ¬ t.HasFault .value (.name x) := by
  have hfault : t.HasFault .value (.name x) ↔ isPseudo x = false ∧
      ∀ kind ∈ [DeclKind.parameter, .condition, .resource, .mapping], ¬ t.Declares kind x := by
    rw [Template.hasFault_name]
    constructor
    · intro h
      cases h with
      | misplaced he => cases he
      | undeclared _ hpseudo hx => exact ⟨hpseudo, hx⟩
    · rintro ⟨hpseudo, hx⟩
      exact .undeclared (by decide) hpseudo hx
  rw [hfault, toValue, exists_nameValue, isReferenceable_iff, not_and_or, Bool.not_eq_false]
  push Not
  rfl

/-- An expression that is neither a name nor an attribute access nor a declaration is in scope if
the expressions in it are. -/
private theorem hasFault_of_children {place : Place} {e : Expr} (h : ¬ t.ScopeFault place e) :
    ¬ t.HasFault place e ↔ ∀ c ∈ e.children, ¬ t.HasFault c.1 c.2 := by
  rw [Template.hasFault_iff, or_iff_right h]
  push Not
  rfl

private theorem exists_attributeBase_iff {base : Expr} :
    (∃ x, attributeBase (.ofTemplate t) base = .ok x) ↔
      ∃ x, base = .name x ∧ t.Declares .resource x := by
  cases base with
  | name x =>
    simp only [attributeBase, List.contains_iff_mem, name.injEq, exists_eq_left',
      ← Template.mem_names_iff, SymbolTable.names]
    split_ifs with h <;> simp [h]
  | _ => simp [attributeBase]

/-- The base of an attribute access is in scope if it is a declared resource. -/
private theorem hasFault_access {place : Place} {e base : Expr}
    (hchildren : e.children = [(.base, base)])
    (hfault : t.ScopeFault place e ↔ ∀ x, base = .name x → ¬ t.Declares .resource x) :
    ¬ t.HasFault place e ↔ ∃ x, base = .name x ∧ t.Declares .resource x := by
  rw [Template.hasFault_iff, hchildren, hfault]
  constructor
  · intro h
    by_contra hnone
    push Not at hnone
    exact h (.inl hnone)
  · rintro ⟨x, rfl, hx⟩ (h | ⟨c, hc, h⟩)
    · exact h x rfl hx
    · obtain rfl := List.mem_singleton.1 hc
      cases Template.hasFault_name.1 h with
      | misplaced he => cases he
      | undeclared _ _ hnone => exact hnone .resource (by decide) hx

private theorem exists_values_iff {symbols : SymbolTable} {es : List Expr} :
    (∃ vs, values symbols es = .ok vs) ↔ ∀ e ∈ es, ∃ v, toValue symbols e = .ok v := by
  rw [values_eq_mapM, exists_mapM_eq_ok_iff]

private theorem exists_fieldValues_iff {symbols : SymbolTable} {fields : List (String × Expr)} :
    (∃ vs, fieldValues symbols fields = .ok vs) ↔
      ∀ f ∈ fields, ∃ v, toValue symbols f.2 = .ok v := by
  simp only [fieldValues_eq_mapM, exists_mapM_eq_ok_iff, exists_map_eq_ok_iff]

private theorem scopeFault_conditionName {x : String} :
    t.ScopeFault .conditionName (.name x) ↔ ¬ t.Declares .condition x := by
  refine ⟨fun h => ?_, .condition⟩
  cases h with
  | misplaced he => cases he
  | condition hx => exact hx
  | undeclared hp => exact absurd hp (by decide)

private theorem scopeFault_mappingName {x : String} :
    t.ScopeFault .mappingName (.name x) ↔ ¬ t.Declares .mapping x := by
  refine ⟨fun h => ?_, .mapping⟩
  cases h with
  | misplaced he => cases he
  | mapping hx => exact hx
  | undeclared hp => exact absurd hp (by decide)

/-- The first argument of a call has a value if and only if it is in scope. -/
private theorem exists_firstValue_iff {function : String} {first : Expr}
    (h : (∃ v, toValue (.ofTemplate t) first = .ok v) ↔ ¬ t.HasFault .value first) :
    (∃ v, firstValue (.ofTemplate t) function first = .ok v) ↔
      ¬ t.HasFault (.ofFirstArgument function) first := by
  have hcontains (kind : DeclKind) (x : String) (fault : MeaningFault) :
      (∃ v, Value.str <$> (if ((SymbolTable.ofTemplate t).names kind).contains x then .ok x
        else .error fault : Except MeaningFault String) = .ok v) ↔ t.Declares kind x := by
    rw [exists_map_eq_ok_iff, ← Template.mem_names_iff, ← List.contains_iff_mem]
    split_ifs with hx
    · exact iff_of_true ⟨x, rfl⟩ hx
    · exact iff_of_false (by simp) hx
  by_cases hname : ∃ x, first = .name x
  · obtain ⟨x, rfl⟩ := hname
    unfold firstValue headName? Place.ofFirstArgument
    by_cases hif : function = "If"
    · simp only [hif, if_true, Template.hasFault_name, scopeFault_conditionName, not_not]
      exact hcontains .condition x _
    by_cases hfind : function = "FindInMap"
    · simp only [hfind, if_true, String.reduceEq, if_false, Template.hasFault_name,
        scopeFault_mappingName, not_not]
      exact hcontains .mapping x _
    · simpa only [hif, hfind, if_false] using h
  · push Not at hname
    have hfirst : firstValue (.ofTemplate t) function first = toValue (.ofTemplate t) first := by
      unfold firstValue headName?
      cases first with
      | name x => exact absurd rfl (hname x)
      | _ => rfl
    have hplace : Place.ofFirstArgument function ≠ .assigned := by
      unfold Place.ofFirstArgument
      split_ifs <;> decide
    rw [hfirst, h, Template.hasFault_place hname hplace]

/-- An expression has a value if and only if nothing in it is out of scope. -/
theorem exists_toValue_iff {e : Expr} (h : e.IsWellFormed) :
    (∃ v, toValue (.ofTemplate t) e = .ok v) ↔ ¬ t.HasFault .value e := by
  induction e using induction_children with
  | h e ih =>
    obtain ⟨hproper, hinside⟩ := isWellFormed_iff.1 h
    replace ih (e') (he' : e' ∈ e.children.map Prod.snd) :
        (∃ v, toValue (.ofTemplate t) e' = .ok v) ↔ ¬ t.HasFault .value e' := by
      obtain ⟨c, hc, rfl⟩ := List.mem_map.1 he'
      exact ih c hc (hinside _ he')
    clear hinside h
    cases e with
    | literal value =>
      rw [hasFault_of_children (by rintro ⟨he⟩; cases he)]
      simp [toValue, children]
    | name x => exact toValue_name_iff
    | object fields =>
      rw [children_object_snd, List.forall_mem_map] at ih
      rw [hasFault_of_children (by rintro ⟨he⟩; cases he), children, List.forall_mem_map,
        ← forall₂_congr ih, ← exists_fieldValues_iff, toValue, bind_pure_comp,
        exists_map_eq_ok_iff]
    | array items =>
      rw [children_array_snd] at ih
      rw [hasFault_of_children (by rintro ⟨he⟩; cases he), children, List.forall_mem_map,
        ← forall₂_congr ih, ← exists_values_iff, toValue, bind_pure_comp, exists_map_eq_ok_iff]
    | member base path =>
      rw [hasFault_access rfl, ← exists_attributeBase_iff, toValue, bind_pure_comp,
        exists_map_eq_ok_iff]
      refine ⟨fun h => ?_, .member⟩
      cases h with
      | misplaced he => cases he
      | member hb => exact hb
    | bracket base path =>
      rw [hasFault_access rfl, ← exists_attributeBase_iff, toValue, bind_pure_comp,
        exists_map_eq_ok_iff]
      refine ⟨fun h => ?_, .bracket⟩
      cases h with
      | misplaced he => cases he
      | bracket hb => exact hb
    | call function args operator =>
      rw [children_call_snd] at ih
      rw [hasFault_of_children (by rintro ⟨he⟩; cases he)]
      by_cases href : function = "Ref"
      · subst href
        obtain ⟨s, rfl⟩ := hproper.exists_of_ref
        rw [List.forall_mem_singleton] at ih
        refine iff_of_true ⟨_, rfl⟩ ?_
        rw [children, List.map_nil, List.forall_mem_singleton]
        exact ih.1 ⟨_, rfl⟩
      cases args with
      | nil => simp [toValue, href, children]
      | cons first others =>
        rw [List.forall_mem_cons] at ih
        rw [children, List.forall_mem_cons, List.forall_mem_map, ← forall₂_congr ih.2,
          ← exists_values_iff, ← exists_firstValue_iff ih.1, toValue_call_cons href,
          exists_bind_bind_eq_ok_iff]
    | resource type properties modifiers =>
      exact iff_of_false (by simp [toValue]) fun h => h ⟨_, _, .self .., .misplaced rfl (by decide)⟩
    | body kind fields =>
      exact iff_of_false (by simp [toValue]) fun h => h ⟨_, _, .self .., .misplaced rfl (by decide)⟩
    | condition test =>
      exact iff_of_false (by simp [toValue]) fun h => h ⟨_, _, .self .., .misplaced rfl (by decide)⟩

/-! ### Declarations -/

/-- A modifier has a value if and only if nothing in it is out of scope. -/
private theorem exists_modifierValue_iff {modifier : String} {e : Expr} (h : e.IsWellFormed) :
    (∃ v, modifierValue (.ofTemplate t) modifier e = .ok v) ↔
      ¬ t.HasFault (.ofModifier modifier) e := by
  by_cases hpolicy : (∃ x, e = .name x) ∧ (policyValues? modifier).isSome = true
  · obtain ⟨⟨x, rfl⟩, hsome⟩ := hpolicy
    obtain ⟨allowed, hallowed⟩ := Option.isSome_iff_exists.1 hsome
    refine iff_of_true ⟨.str x, by simp only [modifierValue, hallowed]⟩ ?_
    rw [Place.ofModifier, if_pos hsome, Template.hasFault_name]
    intro hfault
    cases hfault with
    | misplaced he => cases he
    | undeclared hp => exact absurd hp (by decide)
  · have hvalue : (∃ v, modifierValue (.ofTemplate t) modifier e = .ok v) ↔
        ∃ v, toValue (.ofTemplate t) e = .ok v := by
      unfold modifierValue
      split
      next hsome => exact absurd ⟨⟨_, rfl⟩, by rw [hsome]; rfl⟩ hpolicy
      next =>
        split_ifs
        · exact exists_map_eq_ok_iff
        · rfl
    rw [hvalue, exists_toValue_iff h]
    by_cases hsome : (policyValues? modifier).isSome = true
    · rw [Place.ofModifier, if_pos hsome]
      refine (not_congr (Template.hasFault_place (fun x hx => hpolicy ⟨⟨x, hx⟩, hsome⟩) ?_)).symm
      decide
    · rw [Place.ofModifier, if_neg hsome]

private theorem exists_fields_iff {fields : List (String × Expr)}
    (h : ∀ f ∈ fields, f.2.IsWellFormed) :
    (∃ vs, fieldValues (.ofTemplate t) fields = .ok vs) ↔
      ∀ f ∈ fields, ¬ t.HasFault .value f.2 := by
  rw [exists_fieldValues_iff]
  exact forall₂_congr fun f hf => exists_toValue_iff (h f hf)

private theorem exists_modifiers_iff {modifiers : List (String × Expr)}
    (h : ∀ m ∈ modifiers, m.2.IsWellFormed) :
    (∃ vs, modifierValues (.ofTemplate t) modifiers = .ok vs) ↔
      ∀ m ∈ modifiers, ¬ t.HasFault (.ofModifier m.1) m.2 := by
  simp only [modifierValues_eq_mapM, exists_mapM_eq_ok_iff, exists_map_eq_ok_iff]
  exact forall₂_congr fun m hm => exists_modifierValue_iff (h m hm)

/-- A declaration has a value if and only if nothing in it is out of scope. -/
theorem exists_declarationValue_iff {e : Expr} (h : e.IsWellFormed)
    (hdeclaration : e.isDeclaration = true) :
    (∃ v, declarationValue (.ofTemplate t) e = .ok v) ↔ ¬ t.HasFault .assigned e := by
  have hinside := (isWellFormed_iff.1 h).2
  have hself : ¬ t.ScopeFault .assigned e := by
    intro hfault
    cases hfault with
    | misplaced _ hp => exact hp rfl
    | member => cases hdeclaration
    | bracket => cases hdeclaration
    | undeclared => cases hdeclaration
  rw [hasFault_of_children hself]
  cases e with
  | resource type properties modifiers =>
    rw [children_resource_snd, List.forall_mem_append, List.forall_mem_map,
      List.forall_mem_map] at hinside
    have hproperties : (∃ body, propertiesEntry (.ofTemplate t) properties = .ok body) ↔
        ∃ vs, fieldValues (.ofTemplate t) (properties.getD []) = .ok vs := by
      cases properties with
      | none => exact iff_of_true ⟨[], rfl⟩ ⟨[], rfl⟩
      | some fields => rw [propertiesEntry, bind_pure_comp, exists_map_eq_ok_iff, Option.getD_some]
    rw [children, List.forall_mem_append, List.forall_mem_map, List.forall_mem_map,
      ← exists_modifiers_iff hinside.2, ← exists_fields_iff hinside.1, ← hproperties,
      declarationValue, resourceValue_eq, exists_bind_bind_eq_ok_iff]
  | body kind fields =>
    rw [children_body_snd, List.forall_mem_map] at hinside
    rw [children, List.forall_mem_map, ← exists_fields_iff hinside, declarationValue, toValue,
      bind_pure_comp, exists_map_eq_ok_iff]
  | condition test =>
    rw [children, List.forall_mem_singleton, declarationValue]
    exact exists_toValue_iff (hinside test (by simp [children]))
  | _ => cases hdeclaration

end Expr

/-! ### Templates -/

theorem Expr.exists_declKind_of_isDeclaration {e : Expr} (h : e.isDeclaration = true) :
    ∃ kind, e.declKind? = some kind := by
  cases e with
  | resource => exact ⟨_, rfl⟩
  | body => exact ⟨_, rfl⟩
  | condition => exact ⟨_, rfl⟩
  | _ => cases h

namespace Template

variable {t : Template}

/-- A statement has an entry if and only if nothing in it is out of scope. -/
theorem IsWellFormed.exists_toEntry_iff (h : t.IsWellFormed) {st : Statement}
    (hst : st ∈ t.statements) :
    (∃ entry, st.toEntry (.ofTemplate t) = .ok entry) ↔ ¬ t.HasFault st.root.1 st.root.2 := by
  have hwell := h.root hst
  cases st with
  | header kind value =>
    refine Iff.trans ?_ (Expr.exists_toValue_iff hwell)
    simp only [Statement.toEntry_header_eq_ok_iff]
    exact ⟨fun ⟨_, v, hv, _⟩ => ⟨v, hv⟩, fun ⟨v, hv⟩ => ⟨_, v, hv, rfl⟩⟩
  | assign name value line =>
    have hdeclaration := h.assigned name value line hst
    refine Iff.trans ?_ (Expr.exists_declarationValue_iff hwell hdeclaration)
    simp only [Statement.toEntry_assign_eq_ok_iff]
    obtain ⟨kind, hkind⟩ := Expr.exists_declKind_of_isDeclaration hdeclaration
    exact ⟨fun ⟨_, _, v, _, hv, _⟩ => ⟨v, hv⟩, fun ⟨v, hv⟩ => ⟨_, kind, v, hkind, hv, rfl⟩⟩

/-- A template has a document if and only if nothing in it is out of scope. -/
theorem IsWellFormed.exists_toDocument_iff (h : t.IsWellFormed) :
    (∃ document, t.toDocument = .ok document) ↔
      ¬ ∃ place e, t.Occurs place e ∧ t.ScopeFault place e := by
  unfold toDocument toDocumentWith
  rw [bind_pure_comp, exists_map_eq_ok_iff, exists_mapM_eq_ok_iff,
    forall₂_congr fun (st : Statement) (hst : st ∈ t.statements) => h.exists_toEntry_iff hst]
  constructor
  · rintro hall ⟨place, e, ⟨st, hst, hin⟩, hfault⟩
    exact hall st hst ⟨place, e, hin, hfault⟩
  · rintro hnone st hst ⟨place, e, hin, hfault⟩
    exact hnone ⟨place, e, ⟨st, hst, hin⟩, hfault⟩

/-- A template without a document fails at its first statement that has no entry. -/
theorem exists_first_of_toDocument_eq_error {e : CompileError} (h : t.toDocument = .error e) :
    ∃ before st after, t.statements = before ++ st :: after ∧
      (∀ st ∈ before, ∃ entry, st.toEntry (.ofTemplate t) = .ok entry) ∧
      st.toEntry (.ofTemplate t) = .error e := by
  unfold toDocument toDocumentWith at h
  cases hentries : t.statements.mapM (Statement.toEntry (.ofTemplate t)) with
  | ok entries =>
    rw [hentries] at h
    cases h
  | error e =>
    rw [hentries] at h
    cases h
    exact exists_first_of_mapM_eq_error hentries

/-- What is assigned always has a section to go to. -/
theorem IsWellFormed.toDocument_ne_noSection (h : t.IsWellFormed) :
    t.toDocument ≠ .error .noSection := by
  intro hdocument
  obtain ⟨before, st, after, hstatements, -, hentry⟩ := exists_first_of_toDocument_eq_error hdocument
  have hst : st ∈ t.statements := by simp [hstatements]
  cases st with
  | header kind value =>
    obtain ⟨fault, hfault⟩ := Statement.exists_of_toEntry_header_eq_error hentry
    cases hfault
  | assign name value line =>
    obtain ⟨kind, hkind⟩ := Expr.exists_declKind_of_isDeclaration (h.assigned name value line hst)
    obtain ⟨fault, hfault⟩ := Statement.exists_of_toEntry_assign_eq_error hkind hentry
    cases hfault

end Template

/-- A template that is read fails to compile if and only if something in it is out of scope, and it
never fails otherwise. -/
theorem toDocument_fails_iff_scopeFault {limit : Nat} {text : List Char} {t : Template}
    (h : parseScript limit text = .ok t) :
    ((∃ e, t.toDocument = .error (.meaning e)) ↔
      ∃ place e, t.Occurs place e ∧ t.ScopeFault place e) ∧
      t.toDocument ≠ .error .noSection := by
  have hwell := isWellFormed_of_parseScript h
  have hsection := hwell.toDocument_ne_noSection
  refine ⟨?_, hsection⟩
  rw [← not_iff_not, ← hwell.exists_toDocument_iff]
  cases hdocument : t.toDocument with
  | ok document => simp
  | error e =>
    cases e with
    | meaning e => simp
    | noSection => exact absurd hdocument hsection

/-- A script with a name that is not declared. -/
private def undeclaredScript : List Char := "o=Output{v:[If(c,1,2)]}\nc=Condition x".toList

/-- The script with a name that is not declared fails to compile, by a scope error. -/
theorem scopeFault_undeclaredScript :
    ∃ t, parseScript 4 undeclaredScript = .ok t ∧ (∃ e, t.toDocument = .error (.meaning e)) ∧
      ∃ place e, t.Occurs place e ∧ t.ScopeFault place e := by
  have hread : (match parseScript 4 undeclaredScript with
      | .ok t => t.toDocument.toOption.isNone
      | .error _ => false) = true := by decide +kernel
  cases hparse : parseScript 4 undeclaredScript with
  | error e => simp [hparse] at hread
  | ok t =>
    simp only [hparse] at hread
    obtain ⟨hiff, hsection⟩ := toDocument_fails_iff_scopeFault hparse
    have hfails : ∃ e, t.toDocument = .error (.meaning e) := by
      cases hdocument : t.toDocument with
      | ok document => simp [hdocument, Except.toOption] at hread
      | error e =>
        cases e with
        | meaning e => exact ⟨e, rfl⟩
        | noSection => exact absurd hdocument hsection
    exact ⟨t, rfl, hfails, hiff.1 hfails⟩

end StackScript
