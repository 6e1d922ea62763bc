import StackScript.Proofs.Grammar.Scripts
import StackScript.Proofs.Template.WellFormed

/-!
# Legible expressions

Names, paths, functions and modifiers are spelled as they are, so their spelling is a word only if
they are words; and operators stand between operands, so there has to be one. This is all that the
spelling of an expression needs to have the form of code. It holds of templates that are read from
a script, whether or not they have a meaning.

## Main definitions

* `Expr.HasWords`: what is spelled as it is in an expression is a word, those in it apart.
* `Expr.IsLegible`, `Template.IsLegible`: the same at any depth.

## Main results

* `isLegible_of_parseScript`: templates that are read are legible.
-/

namespace StackScript

namespace Expr

/-- What is spelled as it is in an expression is a word, and operators have operands. -/
def HasWords : Expr → Prop
  | .name x => IsBare x
  | .member _ path => ∀ segment ∈ path, isWord segment.toList = true
  | .call function _ none => isWord function.toList = true
  | .call _ args (some _) => args ≠ []
  | .resource _ _ modifiers => ∀ m ∈ modifiers, isWord m.1.toList = true
  | _ => True

/-- An expression that has words at any depth. -/
def IsLegible (e : Expr) : Prop :=
  ∀ place place' e', Occurs place e place' e' → e'.HasWords

theorem isLegible_iff {e : Expr} :
    e.IsLegible ↔ e.HasWords ∧ ∀ e' ∈ e.children.map Prod.snd, e'.IsLegible :=
  forall_occurs_iff

theorem IsTextual.of_mem_children {e : Expr} (h : e.IsTextual) :
    ∀ e' ∈ e.children.map Prod.snd, e'.IsTextual := by
  cases h with
  | literal => simp [children]
  | name => simp [children]
  | object hf =>
    rw [children_object_snd]
    exact List.forall_mem_map.2 hf
  | array hi => simpa using hi
  | member hb | bracket hb => simpa [children] using hb
  | call _ ha => simpa using ha
  | @resource type properties modifiers hp _ hm =>
    rw [children_resource_snd, List.forall_mem_append, List.forall_mem_map, List.forall_mem_map]
    refine ⟨fun f hf => ?_, hm⟩
    cases properties with
    | none => cases hf
    | some fields => exact hp fields rfl f hf
  | body hf =>
    rw [children_body_snd]
    exact List.forall_mem_map.2 hf
  | condition ht => simpa [children] using ht

/-- An expression is legible if its names are words and its operators have operands. -/
theorem IsTextual.isLegible {e : Expr} (h : e.IsTextual) (hwell : e.IsWellFormed) :
    e.IsLegible := by
  induction e using induction_children with
  | h e ih =>
    obtain ⟨hproper, hinside⟩ := isWellFormed_iff.1 hwell
    refine isLegible_iff.2 ⟨?_, fun e' he' => ?_⟩
    · cases h with
      | name hx => exact hx
      | member _ hp => exact hp
      | @call function args operator hf _ =>
        rcases operator with _ | operator
        · exact hf rfl
        · rintro rfl
          cases operator <;> simp [IsProper, OperatorFits] at hproper
      | resource _ hn _ => exact hn
      | _ => trivial
    · obtain ⟨c, hc, rfl⟩ := List.mem_map.1 he'
      exact ih c hc (h.of_mem_children _ he') (hinside _ he')

end Expr

/-- A template in which every expression is legible. -/
def Template.IsLegible (t : Template) : Prop := ∀ st ∈ t.statements, st.root.2.IsLegible

/-- Templates that are read are legible. -/
theorem isLegible_of_parseScript {limit : Nat} {text : List Char} {t : Template}
    (h : parseScript limit text = .ok t) : t.IsLegible := by
  intro st hst
  have hwell := (isWellFormed_of_parseScript h).root hst
  have hparsed := (isParsed_of_parseScript h).1 st hst
  cases st with
  | header kind value => exact hparsed.1.2.textual.isLegible hwell
  | assign name value line => exact hparsed.2.textual.isLegible hwell

end StackScript
