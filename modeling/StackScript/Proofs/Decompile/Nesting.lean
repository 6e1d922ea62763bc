import StackScript.Proofs.Decompile.RoundTrip
import StackScript.Proofs.Spelling.Nesting

/-!
# The scripts of documents nest little deeper than the documents

Documents and scripts count levels in different ways. Reading a document counts the values that
contain one another. Reading a script counts brackets, calls and negations, and one level for each
statement and one more for the object, the modifier or the condition in it. Parentheses count too,
but where the script has a pair of them the document has a level for the operator inside. So two
levels more than a document was read with are enough for its script, also if the script is refused
for another reason: a key of the document may come twice, or a reference stand for a policy.

## Main results

* `Decompile.Shaped.fits`: what a value is read as nests no deeper than the value.
* `Decompile.TemplateReads.fits`: nor do the values in the template of a document.
* `isTooDeep_eq_false_of_decompile`: the script of a document is not refused for its nesting with
  two levels more.
-/

namespace StackScript

namespace Decompile

open StackScript.Expr Text

variable {keys : List String → Prop} {levels limit : Nat} {e : Expr}

/-- **What a value is read as nests no deeper than the value**, if it has a spelling. -/
theorem Shaped.fits (h : Shaped Scalar.IsSpellable keys levels e) {place : Nat} (hp : place ≤ 4) :
    e.Fits levels place := by
  induction h generalizing place with
  | literal hs => exact fits_literal hs hp
  | name hx => exact fits_name (isName_of_isBareName hx) hp
  | pseudo ha => exact fits_pseudo ha hp
  | member hx hne hpath => exact fits_member (isName_of_isBareName hx) hne hpath hp
  | bracket hx hne => exact fits_bracket (isName_of_isBareName hx) hne hp
  | array hl _ ih => exact (fits_array (fun e he => ih e he (by decide)) hp).mono hl
  | object hl _ _ ih => exact (fits_object (fun f hf => ih f hf (by decide)) hp).mono hl
  | call hl hf _ _ ih =>
    exact (fits_call (isName_of_isBareName hf) (fun e he => ih e he (by decide)) hp).mono hl
  | negation hl _ ih => exact (fits_negation (ih le_rfl) hp).mono hl
  | equality hl _ _ ih ih' => exact (fits_equality (ih le_rfl) (ih' le_rfl)).mono hl
  | inequality hl _ _ ih ih' => exact (fits_inequality (ih le_rfl) (ih' le_rfl)).mono hl
  | conjunction hl hn _ ih =>
    have hne := List.ne_nil_of_length_pos (Nat.lt_of_succ_lt hn)
    exact (fits_conjunction hne fun e he => ih e he (by decide)).mono hl
  | disjunction hl hn _ ih =>
    have hne := List.ne_nil_of_length_pos (Nat.lt_of_succ_lt hn)
    exact (fits_disjunction hne fun e he => ih e he (by decide)).mono hl

theorem ShapedDeclaration.fits (h : ShapedDeclaration Scalar.IsSpellable keys limit e)
    (hle : limit ≤ levels) : e.FitsDeclared levels := by
  have hfits {e : Expr} (h : Shaped Scalar.IsSpellable keys limit e) : e.Fits levels 1 :=
    (h.mono hle).fits (by decide)
  cases h with
  | condition h => exact fitsDeclared_condition (hfits h)
  | body hf => exact fitsDeclared_body _ fun f h => hfits (hf.values f h)
  | resource _ hp hn _ hm =>
    exact fitsDeclared_resource (fun fields h f hf => hfits ((hp fields h).values f hf))
      fun m h => ⟨hn m h, hfits (hm m h)⟩

private theorem fits_of_headerReads {scope : Scope} {kind : Header} {v : Value}
    (h : HeaderReads scope kind v e) (hlevels : max scope.limit 1 ≤ levels)
    (hs : ∃ text, e.spell = .ok text) : (Statement.header kind e).Fits levels := by
  cases h with
  | string => exact Statement.fits_header_string kind _
  | strings =>
    exact Statement.fits_header_array _
      (List.forall_mem_map.2 fun name _ => fits_string name (by decide))
  | mapping _ hv hf =>
    have hfields := determines_finite.shaped_of_fieldsRead trivial hv hf
    exact Statement.fits_header_object kind fun f h =>
      (((hfields.values f h).spellable (exists_spell_object_iff.1 hs f h)).mono hlevels).fits
        (by decide)

/-- The values in the template of a document nest no deeper than in the document, if the template
has a spelling. -/
theorem TemplateReads.fits {scope : Scope} {t : Template} (h : TemplateReads scope t)
    (hlevels : scope.limit ≤ levels) (hpos : 0 < levels) (hs : ∃ raw, t.spell = .ok raw) :
    ∀ st ∈ t.statements, st.Fits levels := by
  have hle : max scope.limit 1 ≤ levels := max_le hlevels hpos
  have hfits : ∀ st ∈ t.statements,
      (∃ text, st.root.2.spell = .ok text) → st.Fits levels := by
    refine determines_finite.forall_statements h trivial
      (fun _ _ _ _ he => fits_of_headerReads he hle) fun _ _ _ _ hv he hspell => ?_
    have hshaped := (determines_finite.shaped_of_declarationReads hv he).spellable hspell
    exact Statement.fits_assign _ _ (hshaped.fits hle)
  exact fun st hst => hfits st hst (Template.exists_spell_iff.1 hs st hst)

end Decompile

/-! ### Scripts -/

/-- Statements that fit are not refused for their nesting when they are laid out. -/
theorem Template.isTooDeep_eq_false_of_layout {levels limit indent : Nat} {t : Template}
    {text : List Char} (hfits : ∀ st ∈ t.statements, st.Fits levels) (hlegible : t.IsLegible)
    (htext : t.layout indent = .ok text) (hlimit : limit = levels + 2) {e : ScriptError}
    (h : parseScript limit text = .error e) : e.isTooDeep = false := by
  obtain ⟨raw, gap, hraw, hgap, hspaces⟩ := Template.exists_respaced_of_layout hlegible htext
  obtain ⟨ts, eof, htokens, heof, hscript⟩ := Template.exists_shallowScript hfits hraw hgap
  -- The layout changes the lines of the tokens but not what they say.
  obtain ⟨-, ts', eof', htokens', hwords⟩ := hspaces.sameTokens htokens
  rw [List.map_append, List.map_append, List.map_singleton, List.map_singleton] at hwords
  obtain ⟨hts, hlast⟩ := List.append_inj' hwords rfl
  have heof' : eof'.word = eof.word := List.singleton_inj.1 hlast
  exact isTooDeep_eq_false_of_parseScript htokens' ((congrArg Word.kind heof').trans heof)
    (hscript.congr hts) hlimit h

/-- **The scripts of documents are not refused for their nesting** with two levels more than the
documents were read with. -/
theorem isTooDeep_eq_false_of_decompile {settings : Settings} {document : Value} {text : List Char}
    (h : (decompile settings document).1 = .ok text) {limit : Nat}
    (hlimit : settings.maxDepth + 2 ≤ limit) {e : ScriptError}
    (he : parseScript limit text = .error e) : e.isTooDeep = false := by
  obtain ⟨t, ht, htext⟩ := exists_layout_of_decompile h
  obtain ⟨scope, hscope, hreads⟩ := Decompile.exists_templateReads ht
  obtain ⟨-, -, hscope⟩ := Decompile.Scope.ofDocument_eq_ok_iff.1 hscope
  have hspell : ∃ raw, t.spell = .ok raw := by
    obtain ⟨raw, hraw, -⟩ := bind_eq_ok_iff.1 htext
    exact ⟨raw, hraw⟩
  obtain ⟨levels, rfl⟩ := Nat.exists_eq_add_of_le' (Nat.le_of_add_left_le hlimit)
  have hlevels : settings.maxDepth ≤ levels := Nat.le_of_add_le_add_right hlimit
  have hfits : ∀ st ∈ t.statements, st.Fits levels :=
    hreads.fits (hscope ▸ hlevels) (settings.maxDepth_pos.trans hlevels) hspell
  exact Template.isTooDeep_eq_false_of_layout hfits hreads.isLegible htext rfl he

/-- A document in which a reference stands for a policy, next to a list of names. -/
private def policyDocument : Value :=
  .map (Value.keyed [
    ("Parameters", .single "P" (.single "Type" (.str "String"))),
    ("Resources", .single "A" (.map (Value.keyed
      [("Type", .str "T"), ("DependsOn", .list [.str "B"]),
        ("DeletionPolicy", .single "Ref" (.str "P"))])))])

/-- The script of the document with a reference for a policy is refused with two levels more, but
not for its nesting. -/
theorem isTooDeep_policyDocument :
    ∃ text e, (decompile { maxDepth := 1 } policyDocument).1 = .ok text ∧
      parseScript 3 text = .error e ∧ e.isTooDeep = false := by
  have hscript : (match (decompile { maxDepth := 1 } policyDocument).1 with
      | .ok text => (parseScript 3 text).toOption.isNone
      | .error _ => false) = true := by decide +kernel
  cases htext : (decompile { maxDepth := 1 } policyDocument).1 with
  | error e => simp [htext] at hscript
  | ok text =>
    simp only [htext] at hscript
    cases he : parseScript 3 text with
    | ok t => simp [he, Except.toOption] at hscript
    | error e => exact ⟨text, e, rfl, he, isTooDeep_eq_false_of_decompile htext le_rfl he⟩

/-- A document with a list of names, which is read without going down a level. -/
private def dependentDocument : Value :=
  .single "Resources" (.single "A" (.map (Value.keyed
    [("Type", .str "T"), ("DependsOn", .list [.str "B"])])))

/-- The script of the document with a list of names is refused for its nesting with as many levels
as the document was read with, and with one level more. -/
theorem isTooDeep_dependentDocument :
    ∃ text, (decompile { maxDepth := 1 } dependentDocument).1 = .ok text ∧
      (∃ e, parseScript 1 text = .error e ∧ e.isTooDeep = true) ∧
      ∃ e, parseScript 2 text = .error e ∧ e.isTooDeep = true := by
  have hscript : (match (decompile { maxDepth := 1 } dependentDocument).1 with
      | .ok text => [1, 2].all fun limit => match parseScript limit text with
        | .ok _ => false
        | .error e => e.isTooDeep
      | .error _ => false) = true := by decide +kernel
  cases htext : (decompile { maxDepth := 1 } dependentDocument).1 with
  | error e => simp [htext] at hscript
  | ok text =>
    simp only [htext, List.all_cons, List.all_nil, Bool.and_true, Bool.and_eq_true] at hscript
    have refused_of {limit : Nat} (h : (match parseScript limit text with
        | .ok _ => false
        | .error e => e.isTooDeep) = true) :
        ∃ e, parseScript limit text = .error e ∧ e.isTooDeep = true := by
      cases he : parseScript limit text with
      | ok t => simp [he] at h
      | error e => exact ⟨e, rfl, by simpa [he] using h⟩
    exact ⟨text, rfl, refused_of hscript.1, refused_of hscript.2⟩

end StackScript
