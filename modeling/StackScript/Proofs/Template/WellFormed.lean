import Mathlib.Data.List.Nodup
import StackScript.Proofs.Grammar.Scripts
import StackScript.Proofs.Number.Digits
import StackScript.Proofs.Template.Occurrences

/-!
# Well-formed templates

What the grammar and its side conditions say of every template that is read, at any depth: keys and
modifiers differ, paths of attributes are not empty and start where a path may start, operators have
the operands they need, and a reference is made to one string. Each occurrence of an expression is
well formed by itself, so this is proved once for every rule of the grammar.

## Main definitions

* `Expr.IsProper`: an expression that is well formed, those in it apart.
* `Expr.IsWellFormed`, `Template.IsWellFormed`: the same at any depth.

## Main results

* `Grammar.Derives.isWellFormed`: expressions that the grammar derives are well formed.
* `isWellFormed_of_parseScript`: templates that are read are well formed.
-/

namespace StackScript

open Grammar Number

/-! ### Well-formed expressions -/

/-- The function, the arguments and the operator of a call fit together. -/
def OperatorFits (function : String) (args : List Expr) : Option Operator → Prop
  | some .eq => function = "Equals" ∧ args.length = 2
  | some .ne => function = "Not" ∧ ∃ left right, args = [.call "Equals" [left, right] none]
  | some .not => function = "Not" ∧ args.length = 1
  | some .and => function = "And" ∧ 2 ≤ args.length
  | some .or => function = "Or" ∧ 2 ≤ args.length
  | none => function = "Ref" → ∃ s, args = [.literal (.str s)]

/-- A reference is made to one string. -/
theorem OperatorFits.exists_of_ref {args : List Expr} {operator : Option Operator}
    (h : OperatorFits "Ref" args operator) : ∃ s, args = [.literal (.str s)] := by
  rcases operator with _ | operator
  · exact h rfl
  · cases operator <;> exact absurd h.1 (by decide)

namespace Expr

/-- An expression that is well formed, whatever stands in it. -/
def IsProper : Expr → Prop
  | .literal value => ∀ n, value = .int n → (writeInt? n).isSome = true
  | .name _ => True
  | .object fields => (fields.map Prod.fst).Nodup
  | .array _ => True
  | .member base path => path ≠ [] ∧ base.startsPath = true
  | .bracket _ path => path ≠ []
  | .call function args operator => OperatorFits function args operator
  | .resource type properties modifiers =>
    type ≠ "" ∧ (∀ fields ∈ properties, (fields.map Prod.fst).Nodup) ∧
      (modifiers.map Prod.fst).Nodup ∧ ∀ m ∈ modifiers, m.1 ∈ modifierNames ∧ Reader.PolicyHolds m
  | .body _ fields => (fields.map Prod.fst).Nodup
  | .condition _ => True

/-- An expression that is well formed at any depth. -/
def IsWellFormed (e : Expr) : Prop :=
  ∀ place place' e', Occurs place e place' e' → e'.IsProper

theorem isWellFormed_iff {e : Expr} :
    e.IsWellFormed ↔ e.IsProper ∧ ∀ e' ∈ e.children.map Prod.snd, e'.IsWellFormed :=
  forall_occurs_iff

end Expr

/-! ### Derived expressions -/

namespace Grammar

variable {parts : List (List Token × Expr)} {phrase : Phrase} {ts : List Token} {e : Expr}

theorem Separated.ne_nil {kind : TokenKind} {tss : List (List Token)}
    (h : Separated kind tss ts) : tss ≠ [] := by
  cases h <;> simp

/-- A call whose arguments are well formed. -/
private theorem isWellFormed_call {function : String} {operator : Option Operator}
    (h : OperatorFits function (parts.map Prod.snd) operator)
    (hparts : ∀ p ∈ parts, p.2.IsWellFormed) :
    (Expr.call function (parts.map Prod.snd) operator).IsWellFormed := by
  refine Expr.isWellFormed_iff.2 ⟨h, ?_⟩
  rw [Expr.children_call_snd]
  exact List.forall_mem_map.2 hparts

private theorem isWellFormed_literal {s : Scalar}
    (h : ∀ n, s = .int n → (writeInt? n).isSome = true) : (Expr.literal s).IsWellFormed :=
  Expr.isWellFormed_iff.2 ⟨h, by simp [Expr.children]⟩

/-- The body of a declaration is an object. -/
private theorem isWellFormed_body {kind : BodyKind} {fields : List (String × Expr)}
    (h : (Expr.object fields).IsWellFormed) : (Expr.body kind fields).IsWellFormed := by
  obtain ⟨hproper, hinside⟩ := Expr.isWellFormed_iff.1 h
  exact Expr.isWellFormed_iff.2 ⟨hproper, hinside⟩

/-- Expressions that the grammar derives are well formed. -/
theorem Derives.isWellFormed (h : Derives phrase ts e) : e.IsWellFormed := by
  induction h with
  | disjunct _ ih => exact ih
  | disjunction hn _ _ ih => exact isWellFormed_call ⟨rfl, by simpa using hn⟩ ih
  | conjunct _ ih => exact ih
  | conjunction hn _ _ ih => exact isWellFormed_call ⟨rfl, by simpa using hn⟩ ih
  | side _ ih => exact ih
  | equality _ _ _ ihl ihr =>
    exact Expr.isWellFormed_iff.2 ⟨⟨rfl, rfl⟩, by simp [ihl, ihr]⟩
  | inequality _ _ _ ihl ihr =>
    refine Expr.isWellFormed_iff.2 ⟨⟨rfl, _, _, rfl⟩, ?_⟩
    rw [Expr.children_call_snd, List.forall_mem_singleton]
    exact Expr.isWellFormed_iff.2 ⟨fun h => absurd h (by decide), by simp [ihl, ihr]⟩
  | negation _ _ ih => exact Expr.isWellFormed_iff.2 ⟨⟨rfl, rfl⟩, by simp [ih]⟩
  | operand _ ih => exact ih
  | plain _ ih => exact ih
  | pseudo => exact Expr.isWellFormed_iff.2 ⟨trivial, by simp [Expr.children]⟩
  | member _ hb _ _ ih =>
    exact Expr.isWellFormed_iff.2 ⟨⟨by simp, hb⟩, by simpa [Expr.children] using ih⟩
  | further _ _ _ ih =>
    obtain ⟨⟨-, hb⟩, hinside⟩ := Expr.isWellFormed_iff.1 ih
    exact Expr.isWellFormed_iff.2 ⟨⟨by simp, hb⟩, hinside⟩
  | bracket _ _ _ hs _ ih =>
    refine Expr.isWellFormed_iff.2 ⟨?_, by simpa [Expr.children] using ih⟩
    simpa [Expr.IsProper] using hs.ne_nil
  | string => exact isWellFormed_literal fun n h => by cases h
  | number hk hl hs => exact isWellFormed_literal fun n h =>
      Reader.writeInt_isSome (h ▸ hs) (hl.numeral hk)
  | word _ hs =>
    refine isWellFormed_literal fun n h => ?_
    subst h
    unfold Reader.keywordLiteral? at hs
    split at hs <;> cases hs
  | grouped _ _ _ ih => exact ih
  | objectLiteral _ ih => exact ih
  | array _ _ _ _ ih =>
    refine Expr.isWellFormed_iff.2 ⟨trivial, ?_⟩
    rw [Expr.children_array_snd]
    exact List.forall_mem_map.2 ih
  | call _ _ _ _ _ _ href ih => exact isWellFormed_call href ih
  | name => exact Expr.isWellFormed_iff.2 ⟨trivial, by simp [Expr.children]⟩
  | @resource keyword type typeTokens properties modifiers _ _ _ hne _ hm _ hd _ ihp ihm =>
    refine Expr.isWellFormed_iff.2 ⟨⟨hne, ?_, ?_, ?_⟩, ?_⟩
    · intro fields hfields
      obtain ⟨p, hp, rfl⟩ := Option.map_eq_some_iff.1 hfields
      exact (Expr.isWellFormed_iff.1 (ihp p hp)).1
    · rw [List.map_map]
      exact hd
    · refine List.forall_mem_map.2 fun m h => ?_
      obtain ⟨-, -, -, hname, hpolicy⟩ := hm m h
      exact ⟨hname, hpolicy⟩
    · rw [Expr.children_resource_snd, List.map_map, List.forall_mem_append]
      refine ⟨?_, List.forall_mem_map.2 ihm⟩
      cases properties with
      | none => simp
      | some p =>
        have hinside := (Expr.isWellFormed_iff.1 (ihp p rfl)).2
        rwa [Expr.children_object_snd] at hinside
  | condition _ _ _ ih => exact Expr.isWellFormed_iff.2 ⟨trivial, by simpa [Expr.children] using ih⟩
  | body _ _ _ ih => exact isWellFormed_body ih
  | groupedBody _ _ _ _ _ ih => exact isWellFormed_body ih
  | object _ _ _ _ hd _ ih =>
    refine Expr.isWellFormed_iff.2 ⟨?_, ?_⟩
    · change (List.map Prod.fst _).Nodup
      rw [List.map_map]
      exact hd
    · rw [Expr.children_object_snd, List.map_map]
      exact List.forall_mem_map.2 ih

end Grammar

/-! ### Well-formed templates -/

/-- A template that is well formed: declarations of a kind differ in their names, headers come at
most once, what is assigned is a declaration, and every expression is proper. -/
structure Template.IsWellFormed (t : Template) : Prop where
  names : ∀ kind, ((t.declarations kind).map Prod.fst).Nodup
  headers : (t.headers.map Prod.fst).Nodup
  assigned : ∀ name value line, .assign name value line ∈ t.statements →
    value.isDeclaration = true
  proper : ∀ place e, t.Occurs place e → e.IsProper

theorem Template.IsWellFormed.root {t : Template} (h : t.IsWellFormed) {st : Statement}
    (hst : st ∈ t.statements) : st.root.2.IsWellFormed := by
  rintro place place' e (_ | ⟨hc, hin⟩)
  · exact h.proper st.root.1 _ ⟨st, hst, .self ..⟩
  · exact h.proper place' e ⟨st, hst, .inside hc hin⟩

private theorem nodup_filterMap {α β γ δ : Type} {xs : List α} {subject : α → γ}
    {f : α → Option β} {k : β → δ} {g : δ → γ} (h : (xs.map subject).Nodup)
    (hf : ∀ x y, f x = some y → subject x = g (k y)) : ((xs.filterMap f).map k).Nodup := by
  have hsublist : (((xs.filterMap f).map k).map g).Sublist (xs.map subject) := by
    clear h
    induction xs with
    | nil => exact .slnil
    | cons x xs ih =>
      cases hx : f x with
      | none =>
        rw [List.filterMap_cons_none hx]
        exact ih.cons _
      | some y =>
        rw [List.filterMap_cons_some hx, List.map_cons, List.map_cons, List.map_cons, hf x y hx]
        exact ih.cons_cons _
  exact List.Nodup.of_map _ (h.sublist hsublist)

/-- Statements that differ in what they declare differ in their names within a kind. -/
private theorem nodup_declarations {t : Template}
    (h : (t.statements.map Statement.subject).Nodup) (kind : DeclKind) :
    ((t.declarations kind).map Prod.fst).Nodup := by
  refine nodup_filterMap (g := fun name => .inr (some kind, name)) h ?_
  rintro (_ | ⟨name, value, line⟩) d hd
  · cases hd
  · dsimp only at hd
    split_ifs at hd with hkind
    cases hd
    exact congrArg (fun k => Sum.inr (k, name)) hkind

private theorem nodup_headers {t : Template} (h : (t.statements.map Statement.subject).Nodup) :
    (t.headers.map Prod.fst).Nodup := by
  refine nodup_filterMap (g := .inl) h ?_
  rintro (_ | _) d hd <;> cases hd
  rfl

/-- Templates that are read are well formed. -/
theorem isWellFormed_of_parseScript {limit : Nat} {text : List Char} {t : Template}
    (h : parseScript limit text = .ok t) : t.IsWellFormed := by
  obtain ⟨ts, eof, -, -, hderives⟩ := exists_derivesTemplate h
  cases hderives with
  | @mk parts hall hnodup =>
    have hsubjects : ((parts.map Prod.snd).map Statement.subject).Nodup := by
      rw [List.map_map]
      exact hnodup
    refine ⟨nodup_declarations hsubjects, nodup_headers hsubjects, ?_, ?_⟩
    · rintro name value line hst
      obtain ⟨⟨ts, st⟩, hp, rfl⟩ := List.mem_map.1 hst
      cases hall _ hp with
      | assign _ _ _ hv => exact hv
    · rintro place e ⟨st, hst, hin⟩
      obtain ⟨⟨ts, st⟩, hp, rfl⟩ := List.mem_map.1 hst
      cases hall _ hp with
      | header _ _ h _ => exact h.isWellFormed _ place e hin
      | assign _ _ h _ => exact h.isWellFormed _ place e hin

end StackScript
