import StackScript.Proofs.Decompile.Shaped
import StackScript.Proofs.Spelling.Legible

/-!
# Templates of documents are legible

What a document is read as is legible: names, functions and paths are written bare only where they
are identifiers, and operators are written only between operands. So templates of documents have
spellings in the form of code, whatever the documents hold.

## Main results

* `Decompile.TemplateReads.isLegible`, `isLegible_of_decompileTemplate`: documents are read as
  legible templates.
-/

namespace StackScript

open StackScript.Expr

namespace Decompile

variable {literals : Scalar → Prop} {keys : List String → Prop} {levels limit : Nat} {e : Expr}

private theorem isWord_of_isBareName {x : String} (h : isBareName x = true) :
    isWord x.toList = true :=
  isWord_of_isIdentifier (isIdentifier_of_isBareName h)

private theorem Shaped.hasWords (h : Shaped literals keys levels e) : e.HasWords := by
  cases h with
  | name hx => exact .inl (isWord_of_isBareName hx)
  | pseudo ha => exact .inr ⟨_, ha, rfl⟩
  | member _ _ hp => exact hp
  | call _ hf => exact isWord_of_isBareName hf
  | negation | equality | inequality => exact List.cons_ne_nil _ _
  | conjunction _ hn | disjunction _ hn =>
    rintro rfl
    cases hn
  | literal | bracket | array | object => trivial

private theorem ShapedDeclaration.hasWords (h : ShapedDeclaration literals keys levels e) :
    e.HasWords := by
  cases h with
  | resource _ _ hn =>
    have hnames : ∀ name ∈ modifierNames, isWord name.toList = true := by decide
    exact fun m hm => hnames _ (hn m hm)
  | condition | body => trivial

/-- What documents are read as is legible. -/
theorem TemplateReads.isLegible {scope : Scope} {t : Template} (h : TemplateReads scope t) :
    t.IsLegible :=
  h.forall_occurs Shaped.hasWords ShapedDeclaration.hasWords

end Decompile

/-- Templates of documents are legible. -/
theorem isLegible_of_decompileTemplate {limit : Nat} {document : Value} {t : Template}
    (h : (decompileTemplate limit document).1 = .ok t) : t.IsLegible := by
  obtain ⟨scope, -, hreads⟩ := Decompile.exists_templateReads h
  exact hreads.isLegible

end StackScript
