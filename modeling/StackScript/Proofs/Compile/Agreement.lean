import StackScript.Proofs.Compile.Values
import StackScript.Proofs.Template.Occurrences

/-!
# Tables of names that agree

The value of an expression depends on the table of declared names only through the names that stand
in the expression. Two tables that agree on these names give the same value, or the same fault.

## Main definitions

* `SymbolTable.AgreeOn`: two tables say the same of a name.
* `Expr.SeesAlike`: two tables say the same of every name in an expression.

## Main results

* `Expr.SeesAlike.toValue_eq`, `Expr.SeesAlike.declarationValue_eq`: equal values of expressions and
  declarations.
* `Statement.toEntry_congr`: equal entries of statements.
-/

namespace StackScript

/-- Two tables say the same of a name. -/
def SymbolTable.AgreeOn (symbols symbols' : SymbolTable) (x : String) : Prop :=
  ∀ kind, x ∈ symbols.names kind ↔ x ∈ symbols'.names kind

/-- Two tables say the same of every name in an expression. -/
def Expr.SeesAlike (symbols symbols' : SymbolTable) (e : Expr) : Prop :=
  ∀ place place' e', Occurs place e place' e' → ∀ x, e' = .name x → symbols.AgreeOn symbols' x

variable {symbols symbols' : SymbolTable}

namespace SymbolTable.AgreeOn

variable {x : String}

theorem contains_eq (h : symbols.AgreeOn symbols' x) (kind : DeclKind) :
    (symbols.names kind).contains x = (symbols'.names kind).contains x := by
  rw [Bool.eq_iff_iff, List.contains_iff_mem, List.contains_iff_mem, h kind]

theorem isReferenceable_eq (h : symbols.AgreeOn symbols' x) :
    symbols.isReferenceable x = symbols'.isReferenceable x := by
  have hparameter := h.contains_eq .parameter
  have hcondition := h.contains_eq .condition
  have hresource := h.contains_eq .resource
  have hmapping := h.contains_eq .mapping
  simp only [names] at hparameter hcondition hresource hmapping
  rw [isReferenceable, isReferenceable, hparameter, hcondition, hresource, hmapping]

theorem isConditionReference_eq (h : symbols.AgreeOn symbols' x) :
    symbols.isConditionReference x = symbols'.isConditionReference x := by
  have hparameter := h.contains_eq .parameter
  have hcondition := h.contains_eq .condition
  simp only [names] at hparameter hcondition
  rw [isConditionReference, isConditionReference, hparameter, hcondition]

theorem nameValue_eq (h : symbols.AgreeOn symbols' x) :
    Expr.nameValue symbols x = Expr.nameValue symbols' x := by
  rw [Expr.nameValue, Expr.nameValue, h.isReferenceable_eq, h.isConditionReference_eq]

end SymbolTable.AgreeOn

namespace Expr

theorem seesAlike_iff {e : Expr} :
    e.SeesAlike symbols symbols' ↔ (∀ x, e = .name x → symbols.AgreeOn symbols' x) ∧
      ∀ inner ∈ e.children.map Prod.snd, inner.SeesAlike symbols symbols' :=
  forall_occurs_iff

namespace SeesAlike

theorem name {x : String} (h : (Expr.name x).SeesAlike symbols symbols') :
    symbols.AgreeOn symbols' x :=
  (seesAlike_iff.1 h).1 x rfl

theorem attributeBase_eq {base : Expr} (h : base.SeesAlike symbols symbols') :
    attributeBase symbols base = attributeBase symbols' base := by
  cases base with
  | name x =>
    have hresource := h.name.contains_eq .resource
    simp only [SymbolTable.names] at hresource
    rw [attributeBase, attributeBase, hresource]
  | _ => rfl

theorem headName?_eq {e : Expr} (h : e.SeesAlike symbols symbols') (function : String) :
    headName? symbols function e = headName? symbols' function e := by
  cases e with
  | name x =>
    have hcondition := h.name.contains_eq .condition
    have hmapping := h.name.contains_eq .mapping
    simp only [SymbolTable.names] at hcondition hmapping
    rw [headName?, headName?, hcondition, hmapping]
  | _ => rfl

private theorem fieldValues_eq {fields : List (String × Expr)}
    (h : ∀ f ∈ fields, toValue symbols f.2 = toValue symbols' f.2) :
    fieldValues symbols fields = fieldValues symbols' fields := by
  rw [fieldValues_eq_mapM, fieldValues_eq_mapM]
  exact mapM_congr fun f hf => congrArg _ (h f hf)

private theorem values_eq {es : List Expr}
    (h : ∀ e ∈ es, toValue symbols e = toValue symbols' e) :
    values symbols es = values symbols' es := by
  rw [values_eq_mapM, values_eq_mapM]
  exact mapM_congr h

/-- Tables that agree on the names in an expression give it the same value. -/
theorem toValue_eq {e : Expr} (h : e.SeesAlike symbols symbols') :
    toValue symbols e = toValue symbols' e := by
  induction e using induction_children with
  | h e ih =>
    have hinside := (seesAlike_iff.1 h).2
    replace ih (e') (he' : e' ∈ e.children.map Prod.snd) :
        toValue symbols e' = toValue symbols' e' := by
      obtain ⟨c, hc, rfl⟩ := List.mem_map.1 he'
      exact ih c hc (hinside _ he')
    cases e with
    | literal => rw [toValue, toValue]
    | name x =>
      rw [toValue, toValue]
      exact h.name.nameValue_eq
    | object fields =>
      rw [children_object_snd, List.forall_mem_map] at ih
      rw [toValue, toValue, fieldValues_eq ih]
    | array items =>
      rw [children_array_snd] at ih
      rw [toValue, toValue, values_eq ih]
    | member base path =>
      rw [toValue, toValue, attributeBase_eq (hinside base (by simp [children]))]
    | bracket base path =>
      rw [toValue, toValue, attributeBase_eq (hinside base (by simp [children]))]
    | call function args operator =>
      rw [children_call_snd] at ih hinside
      cases args with
      | nil => simp only [toValue]
      | cons first others =>
        by_cases href : function = "Ref"
        · simp only [toValue, href, if_true]
        rw [List.forall_mem_cons] at ih hinside
        rw [toValue_call_cons href, toValue_call_cons href, firstValue, firstValue,
          hinside.1.headName?_eq, ih.1, values_eq ih.2]
    | resource => rw [toValue, toValue]
    | body => rw [toValue, toValue]
    | condition => rw [toValue, toValue]

theorem modifierValue_eq {e : Expr} (h : e.SeesAlike symbols symbols') (modifier : String) :
    modifierValue symbols modifier e = modifierValue symbols' modifier e := by
  have hvalue := h.toValue_eq
  unfold modifierValue
  cases policyValues? modifier with
  | none => simp only [hvalue]
  | some allowed =>
    cases e with
    | name x => rfl
    | _ => simp only [hvalue]

/-- Tables that agree on the names in a declaration give it the same value. -/
theorem declarationValue_eq {e : Expr} (h : e.SeesAlike symbols symbols') :
    declarationValue symbols e = declarationValue symbols' e := by
  have hinside := (seesAlike_iff.1 h).2
  cases e with
  | resource type properties modifiers =>
    rw [children_resource_snd, List.forall_mem_append, List.forall_mem_map,
      List.forall_mem_map] at hinside
    have hbody : propertiesEntry symbols properties = propertiesEntry symbols' properties := by
      cases properties with
      | none => rfl
      | some fields =>
        rw [Option.getD_some] at hinside
        rw [propertiesEntry, propertiesEntry,
          fieldValues_eq fun f hf => (hinside.1 f hf).toValue_eq]
    have hmodifiers : modifierValues symbols modifiers = modifierValues symbols' modifiers := by
      rw [modifierValues_eq_mapM, modifierValues_eq_mapM]
      exact mapM_congr fun m hm => congrArg _ ((hinside.2 m hm).modifierValue_eq m.1)
    rw [declarationValue, declarationValue, resourceValue_eq, resourceValue_eq, hbody, hmodifiers]
  | condition test => exact (hinside test (by simp [children])).toValue_eq
  | body kind fields =>
    rw [children_body_snd, List.forall_mem_map] at hinside
    rw [declarationValue, declarationValue, toValue, toValue,
      fieldValues_eq fun f hf => (hinside f hf).toValue_eq]
  | _ => rfl

end SeesAlike

end Expr

/-- Tables that agree on the names in a statement give it the same entry. -/
theorem Statement.toEntry_congr {st : Statement} (h : st.root.2.SeesAlike symbols symbols') :
    st.toEntry symbols = st.toEntry symbols' := by
  cases st with
  | header kind value =>
    rw [toEntry, toEntry, Expr.SeesAlike.toValue_eq (e := value) h]
  | assign name value line =>
    rw [toEntry, toEntry, Expr.SeesAlike.declarationValue_eq (e := value) h]

end StackScript
