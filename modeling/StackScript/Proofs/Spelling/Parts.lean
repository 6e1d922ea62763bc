import StackScript.Proofs.Outcome
import StackScript.Proofs.Spelling.Expressions
import StackScript.Proofs.Template.WellFormed

/-!
# Spelling, one part at a time

The spelling of a compound expression is put together from those of the expressions in it. Stated
for each list of parts, this gives at once that well-formed expressions have a spelling: whatever
could be missing, an operand or a comparison under a negated equality, is there.

## Main definitions

* `Expr.HasOperands`: the operator of an expression fits.
* `Expr.IsWritable`: no integer in an expression is too long to be written.

## Main results

* `Expr.spellAll_eq_mapM`, `Expr.spellOperands_eq_mapM`, `Expr.spellFields_eq_mapM`,
  `Expr.spellModifiers_eq_mapM`: the spellings of lists of parts.
* `Expr.exists_spell_call_iff`, `Expr.exists_spell_resource_iff`: compound expressions have a
  spelling if and only if their parts have.
* `Expr.exists_spell_iff_isWritable`: where operators fit, only an integer can be too long to have
  a spelling.
* `Expr.IsWellFormed.exists_spell`, `Template.IsWellFormed.exists_spell`: well-formed expressions
  and templates have a spelling.
-/

namespace StackScript

namespace Expr

/-! ### Lists of parts -/

/-- The text of a property, given that of its value. -/
def fieldText (key : String) (text : List Char) : List Char :=
  spellKey key.toList ++ ':' :: ' ' :: text

/-- The text of a modifier, given that of its value. -/
def modifierText (modifier : String) (text : List Char) : List Char :=
  ' ' :: modifier.toList ++ '(' :: text ++ [')']

theorem spellAll_eq_mapM (es : List Expr) : spellAll es = es.mapM spell := by
  induction es with
  | nil => rfl
  | cons e es ih => rw [spellAll, List.mapM_cons, ih]

theorem spellOperands_eq_mapM (place : Nat) (es : List Expr) :
    spellOperands place es = es.mapM fun e => parenthesize place e <$> spell e := by
  induction es with
  | nil => rfl
  | cons e es ih =>
    rw [spellOperands, List.mapM_cons, ih]
    cases spell e <;> rfl

theorem spellFields_eq_mapM (fields : List (String × Expr)) :
    spellFields fields = fields.mapM fun f => fieldText f.1 <$> spell f.2 := by
  induction fields with
  | nil => rfl
  | cons f fields ih =>
    rw [spellFields, List.mapM_cons, ih]
    cases spell f.2 <;> rfl

/-- The texts of properties are put together from those of their values. -/
theorem exists_values_of_spellFields {fields : List (String × Expr)} {texts : List (List Char)}
    (h : spellFields fields = .ok texts) :
    ∃ values : List (String × List Char), texts = values.map (fun v => fieldText v.1 v.2) ∧
      List.Forall₂ (fun f v => v.1 = f.1 ∧ f.2.spell = .ok v.2) fields values := by
  rw [spellFields_eq_mapM, mapM_eq_ok_iff] at h
  induction h with
  | nil => exact ⟨[], rfl, .nil⟩
  | @cons f text fields texts hf _ ih =>
    obtain ⟨values, rfl, hvalues⟩ := ih
    obtain ⟨inner, hinner, rfl⟩ := map_eq_ok_iff.1 hf
    exact ⟨(f.1, inner) :: values, rfl, .cons ⟨rfl, hinner⟩ hvalues⟩

theorem spellModifiers_eq_mapM (modifiers : List (String × Expr)) :
    spellModifiers modifiers =
      List.flatten <$> modifiers.mapM fun m => modifierText m.1 <$> spell m.2 := by
  induction modifiers with
  | nil => rfl
  | cons m modifiers ih =>
    rw [spellModifiers, List.mapM_cons, ih]
    cases spell m.2 with
    | error fault => rfl
    | ok text =>
      cases modifiers.mapM (fun m => modifierText m.1 <$> spell m.2) with
      | error fault => rfl
      | ok texts =>
        refine congrArg Except.ok ?_
        simp [modifierText]

/-! ### Compound expressions -/

theorem exists_spellFields_iff {fields : List (String × Expr)} :
    (∃ texts, spellFields fields = .ok texts) ↔ ∀ f ∈ fields, ∃ text, f.2.spell = .ok text := by
  simp only [spellFields_eq_mapM, exists_mapM_eq_ok_iff, exists_map_eq_ok_iff]

theorem exists_spellModifiers_iff {modifiers : List (String × Expr)} :
    (∃ text, spellModifiers modifiers = .ok text) ↔
      ∀ m ∈ modifiers, ∃ text, m.2.spell = .ok text := by
  simp only [spellModifiers_eq_mapM, exists_mapM_eq_ok_iff, exists_map_eq_ok_iff]

theorem exists_spellOperands_iff {place : Nat} {es : List Expr} :
    (∃ texts, spellOperands place es = .ok texts) ↔ ∀ e ∈ es, ∃ text, e.spell = .ok text := by
  simp only [spellOperands_eq_mapM, exists_mapM_eq_ok_iff, exists_map_eq_ok_iff]

theorem exists_spellAll_iff {es : List Expr} :
    (∃ texts, spellAll es = .ok texts) ↔ ∀ e ∈ es, ∃ text, e.spell = .ok text := by
  simp only [spellAll_eq_mapM, exists_mapM_eq_ok_iff]

theorem exists_spell_array_iff {items : List Expr} :
    (∃ text, (array items).spell = .ok text) ↔ ∀ e ∈ items, ∃ text, e.spell = .ok text := by
  rw [spell, bind_pure_comp, exists_map_eq_ok_iff, exists_spellAll_iff]

theorem exists_spell_object_iff {fields : List (String × Expr)} :
    (∃ text, (object fields).spell = .ok text) ↔ ∀ f ∈ fields, ∃ text, f.2.spell = .ok text := by
  rw [spell, bind_pure_comp, exists_map_eq_ok_iff, exists_spellFields_iff]

theorem exists_spell_body_iff {kind : BodyKind} {fields : List (String × Expr)} :
    (∃ text, (body kind fields).spell = .ok text) ↔
      ∀ f ∈ fields, ∃ text, f.2.spell = .ok text := by
  rw [spell, bind_pure_comp, exists_map_eq_ok_iff, exists_spellFields_iff]

theorem exists_spell_condition_iff {test : Expr} :
    (∃ text, (condition test).spell = .ok text) ↔ ∃ text, test.spell = .ok text := by
  rw [spell, bind_pure_comp, exists_map_eq_ok_iff]

theorem exists_spell_plainCall_iff {function : String} {args : List Expr} :
    (∃ text, (call function args none).spell = .ok text) ↔
      ∀ e ∈ args, ∃ text, e.spell = .ok text := by
  rw [spell, bind_pure_comp, exists_map_eq_ok_iff, exists_spellAll_iff]

/-- A call whose operator fits has a spelling if and only if its arguments have. -/
theorem exists_spell_call_iff {function : String} {args : List Expr} {operator : Option Operator}
    (hfits : OperatorFits function args operator) :
    (∃ text, (call function args operator).spell = .ok text) ↔
      ∀ e ∈ args, ∃ text, e.spell = .ok text := by
  rcases operator with _ | operator
  · exact exists_spell_plainCall_iff
  cases operator with
  | eq =>
    obtain ⟨left, right, rfl⟩ := List.length_eq_two.1 hfits.2
    rw [spell, exists_bind_bind_eq_ok_iff, List.forall_mem_cons, List.forall_mem_singleton]
  | ne =>
    -- The operands are those of the equality that stands under the negation.
    obtain ⟨-, left, right, rfl⟩ := hfits
    rw [spell, exists_bind_bind_eq_ok_iff, List.forall_mem_singleton, exists_spell_plainCall_iff,
      List.forall_mem_cons, List.forall_mem_singleton]
  | and => rw [spell, bind_pure_comp, exists_map_eq_ok_iff, exists_spellOperands_iff]
  | or => rw [spell, bind_pure_comp, exists_map_eq_ok_iff, exists_spellOperands_iff]
  | not =>
    obtain ⟨operand, rfl⟩ := List.length_eq_one_iff.1 hfits.2
    rw [spell, bind_pure_comp, exists_map_eq_ok_iff, List.forall_mem_singleton]

/-- An inequality has a spelling if and only if the equality of its operands has. -/
theorem exists_spell_inequality_iff {function other equality : String} {args : List Expr}
    {operator : Option Operator} :
    (∃ text, (call function [call other args operator] (some .ne)).spell = .ok text) ↔
      ∃ text, (call equality args (some .eq)).spell = .ok text := by
  rcases args with _ | ⟨left, _ | ⟨right, _ | ⟨third, rest⟩⟩⟩
  case cons.cons.nil =>
    rw [spell, spell, exists_bind_bind_eq_ok_iff, exists_bind_bind_eq_ok_iff]
  all_goals simp [spell]

/-- A resource has a spelling if and only if its properties and its modifiers have. -/
theorem exists_spell_resource_iff {type : String} {properties : Option (List (String × Expr))}
    {modifiers : List (String × Expr)} :
    (∃ text, (resource type properties modifiers).spell = .ok text) ↔
      (∀ f ∈ properties.getD [], ∃ text, f.2.spell = .ok text) ∧
        ∀ m ∈ modifiers, ∃ text, m.2.spell = .ok text := by
  have hproperties : (∃ body, spellProperties properties = .ok body) ↔
      ∀ f ∈ properties.getD [], ∃ text, f.2.spell = .ok text := by
    cases properties with
    | none => simp [spellProperties]
    | some fields =>
      rw [spellProperties, bind_pure_comp, exists_map_eq_ok_iff, exists_spellFields_iff]
      rfl
  rw [spell_resource, exists_bind_bind_eq_ok_iff, hproperties, exists_spellModifiers_iff]

/-- A literal has a spelling unless it is an integer that is too long. -/
theorem exists_spell_literal_iff {value : Scalar} :
    (∃ text, (literal value).spell = .ok text) ↔
      ∀ n, value = .int n → (Number.writeInt? n).isSome = true := by
  rcases value with _ | (_ | _) | n | x | s
  case int =>
    simp only [spell, spellScalar, spellInt, Scalar.int.injEq, forall_eq']
    cases Number.writeInt? n <;> simp
  all_goals simp [spell, spellScalar]

/-! ### All depths -/

/-- The operator of an expression fits, if it is a call. -/
def HasOperands : Expr → Prop
  | .call function args operator => OperatorFits function args operator
  | _ => True

/-- The integers at any depth of an expression are not too long to be written. -/
def IsWritable (e : Expr) : Prop :=
  ∀ place place' e', Occurs place e place' e' → ∀ n, e' = .literal (.int n) →
    (Number.writeInt? n).isSome = true

theorem isWritable_iff {e : Expr} :
    e.IsWritable ↔ (∀ n, e = .literal (.int n) → (Number.writeInt? n).isSome = true) ∧
      ∀ e' ∈ e.children.map Prod.snd, e'.IsWritable :=
  forall_occurs_iff

/-- An expression whose operator fits has a spelling if and only if the expressions right inside it
have, and it is no integer that is too long. -/
theorem exists_spell_iff_children {e : Expr} (h : e.HasOperands) :
    (∃ text, e.spell = .ok text) ↔
      (∀ n, e = .literal (.int n) → (Number.writeInt? n).isSome = true) ∧
        ∀ e' ∈ e.children.map Prod.snd, ∃ text, e'.spell = .ok text := by
  cases e with
  | literal value =>
    rw [exists_spell_literal_iff]
    simp [children]
  | name x => simp [spell, children]
  | object fields =>
    rw [exists_spell_object_iff, children_object_snd, List.forall_mem_map]
    simp
  | array items => simp [exists_spell_array_iff]
  | member base path => simp [spell, bind_pure_comp, exists_map_eq_ok_iff, children]
  | bracket base path => simp [spell, bind_pure_comp, exists_map_eq_ok_iff, children]
  | call function args operator => simp [exists_spell_call_iff h]
  | resource type properties modifiers =>
    rw [exists_spell_resource_iff, children_resource_snd, List.forall_mem_append,
      List.forall_mem_map, List.forall_mem_map]
    simp
  | body kind fields =>
    rw [exists_spell_body_iff, children_body_snd, List.forall_mem_map]
    simp
  | condition test => simp [exists_spell_condition_iff, children]

/-- **An expression whose operators fit has a spelling** if and only if no integer in it is too long
to be written. -/
theorem exists_spell_iff_isWritable {e : Expr}
    (h : ∀ place place' e', Occurs place e place' e' → e'.HasOperands) :
    (∃ text, e.spell = .ok text) ↔ e.IsWritable := by
  induction e using induction_children with
  | h e ih =>
    obtain ⟨hself, hinside⟩ := forall_occurs_iff.1 h
    rw [exists_spell_iff_children hself, isWritable_iff]
    refine and_congr_right fun _ => forall₂_congr fun e' he' => ?_
    obtain ⟨c, hc, rfl⟩ := List.mem_map.1 he'
    exact ih c hc (hinside _ he')

theorem IsProper.hasOperands {e : Expr} (h : e.IsProper) : e.HasOperands := by
  cases e with
  | call => exact h
  | _ => trivial

/-- Well-formed expressions have a spelling. -/
theorem IsWellFormed.exists_spell {e : Expr} (h : e.IsWellFormed) : ∃ text, e.spell = .ok text := by
  refine (exists_spell_iff_isWritable fun _ _ _ hin => (h _ _ _ hin).hasOperands).2 ?_
  rintro place place' _ hin n rfl
  exact h place place' _ hin n rfl

end Expr

/-! ### Templates -/

/-- A template has a spelling if and only if the expressions of its statements have. -/
theorem Template.exists_spell_iff {t : Template} :
    (∃ text, t.spell = .ok text) ↔ ∀ st ∈ t.statements, ∃ text, st.root.2.spell = .ok text := by
  rw [Template.spell, bind_pure_comp, exists_map_eq_ok_iff, exists_mapM_eq_ok_iff]
  refine forall₂_congr fun st _ => ?_
  cases st with
  | header kind value => rw [Statement.spell, bind_pure_comp, exists_map_eq_ok_iff, Statement.root]
  | assign name value line =>
    rw [Statement.spell, bind_pure_comp, exists_map_eq_ok_iff, Statement.root]

/-- Well-formed templates have a spelling. -/
theorem Template.IsWellFormed.exists_spell {t : Template} (h : t.IsWellFormed) :
    ∃ text, t.spell = .ok text :=
  exists_spell_iff.2 fun _ hst => (h.root hst).exists_spell

/-- Every template that is read is well formed, and spelling it never fails. -/
theorem isWellFormed_and_spell_of_parseScript {limit : Nat} {text : List Char} {t : Template}
    (h : parseScript limit text = .ok t) : t.IsWellFormed ∧ ∃ raw, t.spell = .ok raw := by
  have hwell := isWellFormed_of_parseScript h
  exact ⟨hwell, hwell.exists_spell⟩

/-- A script with a negated inequality, a path of attributes and a reference. -/
private def nestedScript : List Char :=
  "c=Condition !(a!=1)\nr=Resource A {k:a.b.c,} DependsOn(Ref('x'))".toList

/-- The template of the nested script is well formed and has a spelling. -/
theorem isWellFormed_nestedScript :
    ∃ t, parseScript 4 nestedScript = .ok t ∧ t.IsWellFormed ∧ ∃ raw, t.spell = .ok raw := by
  have hread : (parseScript 4 nestedScript).toOption.isSome = true := by decide +kernel
  cases hparse : parseScript 4 nestedScript with
  | error e => simp [hparse, Except.toOption] at hread
  | ok t => exact ⟨t, rfl, isWellFormed_and_spell_of_parseScript hparse⟩

end StackScript
