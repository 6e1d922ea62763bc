import StackScript.Template.Basic

/-!
# The expressions in a template

An expression stands in a place, and so do the expressions in it: as the right side of an
assignment, as the value of a policy, as the base of an attribute access, as the first argument of
a function that takes a plain name there, or just as a value. What is said of a template at any
depth is said of all these occurrences.

## Main definitions

* `Place`: the places that expressions stand in.
* `Expr.children`: the expressions right inside an expression, with their places.
* `Occurs`, `Template.Occurs`: expressions at any depth.
* `Template.headers`, `Template.declarations`: the statements by their kinds.

## Main results

* `Expr.induction_children`: induction over the expressions in an expression.
* `forall_occurs_iff`: what holds of all occurrences, one level at a time.
-/

namespace StackScript

/-! ### Places -/

/-- The places that an expression can stand in. -/
inductive Place where
  | assigned
  | policy
  | base
  | conditionName
  | mappingName
  | value
deriving DecidableEq

/-- The place of the first argument of a call. -/
def Place.ofFirstArgument (function : String) : Place :=
  if function = "If" then .conditionName
  else if function = "FindInMap" then .mappingName
  else .value

/-- The place of the value of a modifier. -/
def Place.ofModifier (modifier : String) : Place :=
  if (policyValues? modifier).isSome then .policy else .value

namespace Expr

/-- The expressions right inside an expression, with their places. -/
def children : Expr → List (Place × Expr)
  | .literal _ => []
  | .name _ => []
  | .object fields => fields.map fun f => (.value, f.2)
  | .array items => items.map fun e => (.value, e)
  | .member base _ => [(.base, base)]
  | .bracket base _ => [(.base, base)]
  | .call _ [] _ => []
  | .call function (first :: others) _ =>
    (.ofFirstArgument function, first) :: others.map fun e => (.value, e)
  | .resource _ properties modifiers =>
    ((properties.getD []).map fun f => (.value, f.2)) ++
      modifiers.map fun m => (.ofModifier m.1, m.2)
  | .body _ fields => fields.map fun f => (.value, f.2)
  | .condition test => [(.value, test)]

@[simp] theorem children_call_snd (function : String) (args : List Expr)
    (operator : Option Operator) :
    (children (.call function args operator)).map Prod.snd = args := by
  cases args with
  | nil => rfl
  | cons first others => simp [children, Function.comp_def]

@[simp] theorem children_object_snd (fields : List (String × Expr)) :
    (children (.object fields)).map Prod.snd = fields.map Prod.snd := by
  simp [children]

@[simp] theorem children_array_snd (items : List Expr) :
    (children (.array items)).map Prod.snd = items := by
  simp [children, Function.comp_def]

@[simp] theorem children_resource_snd (type : String)
    (properties : Option (List (String × Expr))) (modifiers : List (String × Expr)) :
    (children (.resource type properties modifiers)).map Prod.snd =
      (properties.getD []).map Prod.snd ++ modifiers.map Prod.snd := by
  simp [children, Function.comp_def]

@[simp] theorem children_body_snd (kind : BodyKind) (fields : List (String × Expr)) :
    (children (.body kind fields)).map Prod.snd = fields.map Prod.snd := by
  simp [children]

private theorem sizeOf_lt_of_mem_fields {fields : List (String × Expr)} {f : String × Expr}
    (h : f ∈ fields) : sizeOf f.2 < sizeOf fields := by
  have hfield := List.sizeOf_lt_of_mem h
  have hpair : sizeOf f = 1 + sizeOf f.1 + sizeOf f.2 := rfl
  omega

theorem sizeOf_lt_of_mem_children {e : Expr} {c : Place × Expr} (h : c ∈ e.children) :
    sizeOf c.2 < sizeOf e := by
  cases e with
  | literal => cases h
  | name => cases h
  | object fields =>
    obtain ⟨f, hf, rfl⟩ := List.mem_map.1 h
    have := sizeOf_lt_of_mem_fields hf
    rw [object.sizeOf_spec]
    dsimp only
    omega
  | array items =>
    obtain ⟨e, he, rfl⟩ := List.mem_map.1 h
    have := List.sizeOf_lt_of_mem he
    rw [array.sizeOf_spec]
    dsimp only
    omega
  | member base path =>
    obtain rfl := List.mem_singleton.1 h
    rw [member.sizeOf_spec]
    dsimp only
    omega
  | bracket base path =>
    obtain rfl := List.mem_singleton.1 h
    rw [bracket.sizeOf_spec]
    dsimp only
    omega
  | call function args operator =>
    have hmem := List.mem_map_of_mem (f := Prod.snd) h
    rw [children_call_snd] at hmem
    have := List.sizeOf_lt_of_mem hmem
    rw [call.sizeOf_spec]
    omega
  | resource type properties modifiers =>
    rw [resource.sizeOf_spec]
    rcases List.mem_append.1 h with h | h
    · obtain ⟨f, hf, rfl⟩ := List.mem_map.1 h
      cases properties with
      | none => cases hf
      | some fields =>
        have := sizeOf_lt_of_mem_fields hf
        rw [Option.some.sizeOf_spec]
        dsimp only [Option.getD_some] at this ⊢
        omega
    · obtain ⟨m, hm, rfl⟩ := List.mem_map.1 h
      have := sizeOf_lt_of_mem_fields hm
      dsimp only
      omega
  | body kind fields =>
    obtain ⟨f, hf, rfl⟩ := List.mem_map.1 h
    have := sizeOf_lt_of_mem_fields hf
    rw [body.sizeOf_spec]
    dsimp only
    omega
  | condition test =>
    obtain rfl := List.mem_singleton.1 h
    rw [condition.sizeOf_spec]
    dsimp only
    omega

/-- What holds of an expression if it holds of those right inside it holds of all expressions. -/
theorem induction_children {P : Expr → Prop}
    (h : ∀ e : Expr, (∀ c ∈ e.children, P c.2) → P e) (e : Expr) : P e :=
  h e fun c hc => by
    have := sizeOf_lt_of_mem_children hc
    exact induction_children h c.2
termination_by sizeOf e

end Expr

/-! ### Occurrences -/

/-- In an expression at a place, another one stands at a place: the expression itself, or one that
stands in an expression right inside it. -/
inductive Occurs : Place → Expr → Place → Expr → Prop
  | self (place : Place) (e : Expr) : Occurs place e place e
  | inside {place place' : Place} {e e' : Expr} {c : Place × Expr} (hc : c ∈ e.children)
      (h : Occurs c.1 c.2 place' e') : Occurs place e place' e'

theorem Occurs.trans {place place' place'' : Place} {e e' e'' : Expr} (h : Occurs place e place' e')
    (h' : Occurs place' e' place'' e'') : Occurs place e place'' e'' := by
  induction h with
  | self => exact h'
  | inside hc _ ih => exact .inside hc (ih h')

/-- What holds of all expressions in an expression, one level at a time. -/
theorem forall_occurs_iff {P : Expr → Prop} {e : Expr} :
    (∀ place place' e', Occurs place e place' e' → P e') ↔
      P e ∧ ∀ inner ∈ e.children.map Prod.snd,
        ∀ place place' e', Occurs place inner place' e' → P e' := by
  constructor
  · intro h
    refine ⟨h .value .value e (.self _ _), fun inner hinner place place' e' hin => ?_⟩
    obtain ⟨c, hc, rfl⟩ := List.mem_map.1 hinner
    cases hin with
    | self => exact h .value c.1 c.2 (.inside hc (.self ..))
    | inside hc' hin => exact h .value place' e' (.inside hc (.inside hc' hin))
  · rintro ⟨hself, hinside⟩ place place' e' (_ | ⟨hc, hin⟩)
    · exact hself
    · exact hinside _ (List.mem_map_of_mem hc) _ place' e' hin

/-- What holds of an occurrence in an expression, one level at a time. -/
theorem exists_occurs_iff {Q : Place → Expr → Prop} {place : Place} {e : Expr} :
    (∃ place' e', Occurs place e place' e' ∧ Q place' e') ↔
      Q place e ∨ ∃ c ∈ e.children, ∃ place' e', Occurs c.1 c.2 place' e' ∧ Q place' e' := by
  constructor
  · rintro ⟨place', e', _ | ⟨hc, hin⟩, hQ⟩
    · exact .inl hQ
    · exact .inr ⟨_, hc, place', e', hin, hQ⟩
  · rintro (hQ | ⟨c, hc, place', e', hin, hQ⟩)
    · exact ⟨place, e, .self place e, hQ⟩
    · exact ⟨place', e', .inside hc hin, hQ⟩

/-! ### Statements and templates -/

/-- The expression in a statement, with its place. -/
def Statement.root : Statement → Place × Expr
  | .header _ value => (.value, value)
  | .assign _ value _ => (.assigned, value)

namespace Template

/-- An expression stands in a template at a place. -/
def Occurs (t : Template) (place : Place) (e : Expr) : Prop :=
  ∃ st ∈ t.statements, StackScript.Occurs st.root.1 st.root.2 place e

/-- The headers of a template with their values, in source order. -/
def headers (t : Template) : List (Header × Expr) :=
  t.statements.filterMap fun
    | .header kind value => some (kind, value)
    | .assign .. => none

/-- The declarations of a kind with their names, in source order. -/
def declarations (t : Template) (kind : DeclKind) : List (String × Expr) :=
  t.statements.filterMap fun
    | .assign name value _ => if value.declKind? = some kind then some (name, value) else none
    | .header .. => none

end Template

end StackScript
