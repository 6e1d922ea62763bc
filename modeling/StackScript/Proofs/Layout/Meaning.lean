import StackScript.Proofs.Decompile.Legible
import StackScript.Proofs.Layout.Spelled
import StackScript.Proofs.Token.Division

/-!
# The layout keeps the meaning of scripts

The layout of the spelling of a template is a respaced version of it, so both have the same tokens
but for the lines they stand on. Where lines matter, before the modifiers of a resource and between
statements, they end at the same places. Hence both are read as the same template.

## Main results

* `Layout.Respaced.parseScript`, `Layout.Respaced.tokenize`: respaced scripts are read alike.
* `parseScript_layout_of_spell`: the layout keeps the meaning of spelled templates.
-/

namespace StackScript

namespace Layout

variable {a b : List Char}

/-- Respaced scripts are read as the same template, up to the lines of its statements. -/
theorem Respaced.parseScript (h : Respaced false a b) {limit : Nat} {t : Template}
    (ht : StackScript.parseScript limit a = .ok t) :
    ∃ t', StackScript.parseScript limit b = .ok t' ∧ t'.withoutLines = t.withoutLines := by
  obtain ⟨ts, eof, htokens⟩ := exists_ofText_of_parseScript ht
  exact parseScript_of_sameTokens ht (h.sameTokens htokens).1

/-- Respaced texts have the same tokens, up to where they stand. -/
theorem Respaced.tokenize (h : Respaced false a b) {tokens : List Token}
    (ht : StackScript.tokenize a = .ok tokens) :
    ∃ tokens', StackScript.tokenize b = .ok tokens' ∧
      tokens'.map Token.word = tokens.map Token.word := by
  obtain ⟨ts, eof, htext, rfl⟩ := tokenize_eq_ok_iff.1 ht
  obtain ⟨-, ts', eof', htext', hwords⟩ := h.sameTokens htext
  exact ⟨ts' ++ [eof'], tokenize_eq_ok_iff.2 ⟨ts', eof', htext', rfl⟩, hwords⟩

end Layout

/-- **The layout keeps the meaning of scripts.** Take the spelling of a template that was read from
a script or from a document, and lay it out with any indent. If the spelling is read, under any
nesting limit, then so is the layout, as the same template up to the lines of its statements. Both
have the same tokens, up to where they stand. -/
theorem parseScript_layout_of_spell {t : Template}
    (ht : (∃ limit text, parseScript limit text = .ok t) ∨
      ∃ limit document, (decompileTemplate limit document).1 = .ok t)
    {raw : List Char} (hraw : t.spell = .ok raw) (indent : Int) :
    (∀ limit u, parseScript limit raw = .ok u →
      ∃ u', parseScript limit (Layout.layout indent raw) = .ok u' ∧
        u'.withoutLines = u.withoutLines) ∧
    ∀ tokens, tokenize raw = .ok tokens →
      ∃ tokens', tokenize (Layout.layout indent raw) = .ok tokens' ∧
        tokens'.map Token.word = tokens.map Token.word := by
  have hlegible : t.IsLegible := by
    rcases ht with ⟨limit, text, ht⟩ | ⟨limit, document, ht⟩
    · exact isLegible_of_parseScript ht
    · exact isLegible_of_decompileTemplate ht
  have hlayout := Layout.respaced_layout hlegible hraw indent
  exact ⟨fun _ _ => hlayout.parseScript, fun _ => hlayout.tokenize⟩

/-- A script whose objects are nested, and become blocks. -/
private def blockScript : List Char :=
  "a=Parameter".toList ++ '{' :: "b:{c:1},d:".toList ++ ['\'', '{', '\'', '}'] ++
    "\nr=Resource A::B{e:[a]} DependsOn(r)".toList

/-- The layout of a script with nested objects differs from its spelling and is read alike. -/
theorem parseScript_layout_blockScript :
    ∃ t raw u u', parseScript 4 blockScript = .ok t ∧ t.spell = .ok raw ∧
      parseScript 4 raw = .ok u ∧ Layout.layout 2 raw ≠ raw ∧
      parseScript 4 (Layout.layout 2 raw) = .ok u' ∧ u'.withoutLines = u.withoutLines := by
  have hsample : (match parseScript 4 blockScript with
      | .ok t => match t.spell with
        | .ok raw => (parseScript 4 raw).toOption.isSome && Layout.layout 2 raw != raw
        | .error _ => false
      | .error _ => false) = true := by decide +kernel
  cases ht : parseScript 4 blockScript with
  | error e => simp [ht] at hsample
  | ok t =>
    simp only [ht] at hsample
    cases hraw : t.spell with
    | error e => simp [hraw] at hsample
    | ok raw =>
      simp only [hraw, Bool.and_eq_true, bne_iff_ne] at hsample
      cases hu : parseScript 4 raw with
      | error e => simp [hu, Except.toOption] at hsample
      | ok u =>
        obtain ⟨u', hu', hlines⟩ :=
          (parseScript_layout_of_spell (.inl ⟨4, blockScript, ht⟩) hraw 2).1 4 u hu
        exact ⟨t, raw, u, u', rfl, hraw, hu, hsample.2, hu', hlines⟩

end StackScript
