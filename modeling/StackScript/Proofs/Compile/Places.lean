import StackScript.Proofs.Compile.Scope
import StackScript.Proofs.Grammar.Landmarks

/-!
# Where compiling fails

A script that is read fails to compile at the first of its statements in which something is out of
scope. If this is an assignment, the error has a place: the start of the line on which the
assignment starts. A header keeps no line, so an error in it has no place.

## Main definitions

* `Template.FailsAt`: the first statement of a template that fails, and the token it starts with.

## Main results

* `context_of_toDocument`: the place of an error of compiling a script.
* `context_of_metadataScript`: an error without a place.
-/

namespace StackScript

open Grammar Text

/-- Among the tokens of a template, those of its statements in a row up to the end of input, the
ones of a statement start with a given token. Something is out of scope in this statement, and
nothing is in those before it. -/
def Template.FailsAt (t : Template) (tokens : List Token) (st : Statement) (first : Token) : Prop :=
  ∃ before more after eof,
    tokens = before.flatMap Prod.fst ++ (first :: more) ++ after.flatMap Prod.fst ++ [eof] ∧
    t.statements = before.map Prod.snd ++ st :: after.map Prod.snd ∧
    (∀ p ∈ before ++ (first :: more, st) :: after, DerivesStatement p.1 p.2) ∧
    (∀ p ∈ before, ¬ t.HasFault p.2.root.1 p.2.root.2) ∧ t.HasFault st.root.1 st.root.2

/-- The tokens of a text stand on lines that are counted from one. -/
theorem TokenStream.line_ne_zero_of_ofText {text : List Char} {ts : List Token} {eof t : Token}
    (h : TokenStream.ofText text = ⟨ts.map .ok, .ok eof⟩) (ht : t ∈ ts) : t.line ≠ 0 := by
  have hstream := Places.stream_ofText text
  rw [h, Places.Stream, Places.answers_map_ok_append] at hstream
  obtain ⟨before, -, hline, -⟩ := hstream.1 t ht
  rw [hline]
  exact Nat.succ_ne_zero _

/-- A statement starts with a token, and an assignment keeps the line of that token. -/
theorem Grammar.DerivesStatement.exists_first {ts : List Token} {st : Statement}
    (h : DerivesStatement ts st) :
    ∃ first more, ts = first :: more ∧
      ∀ name value line, st = .assign name value line → line = first.line := by
  cases h with
  | @header keyword kind ts value _ _ _ _ =>
    exact ⟨keyword, ts, rfl, fun name value line heq => by cases heq⟩
  | @assign name equals ts value _ _ _ _ =>
    refine ⟨name, equals :: ts, rfl, fun name' value' line heq => ?_⟩
    cases heq
    rfl

/-- A script that is read and fails to compile has a first statement in which something is out of
scope, and fails with the error of this statement. -/
theorem exists_failsAt_of_toDocument {limit : Nat} {text : List Char} {t : Template}
    {e : CompileError} (h : parseScript limit text = .ok t) (he : t.toDocument = .error e) :
    ∃ tokens st first, tokenize text = .ok tokens ∧ t.FailsAt tokens st first ∧ first.line ≠ 0 ∧
      st ∈ t.statements ∧ (∀ name value line, st = .assign name value line → line = first.line) ∧
      st.toEntry (.ofTemplate t) = .error e := by
  have hwell := isWellFormed_of_parseScript h
  obtain ⟨before, st, after, hstatements, hbefore, hentry⟩ :=
    Template.exists_first_of_toDocument_eq_error he
  have hst : st ∈ t.statements := by simp [hstatements]
  have hfault : t.HasFault st.root.1 st.root.2 := by
    by_contra hnone
    obtain ⟨entry, hok⟩ := (hwell.exists_toEntry_iff hst).2 hnone
    cases hentry.symm.trans hok
  have hclear : ∀ st' ∈ before, ¬ t.HasFault st'.root.1 st'.root.2 := fun st' hst' =>
    (hwell.exists_toEntry_iff (by simp [hstatements, hst'])).1 (hbefore st' hst')
  obtain ⟨ts, eof, htext, -, hderives⟩ := exists_derivesTemplate h
  cases hderives with
  | @mk parts hall hnodup =>
    obtain ⟨before, rest, rfl, rfl, hrest⟩ := List.map_eq_append_iff.1 hstatements
    obtain ⟨p, after, rfl, rfl, rfl⟩ := List.map_eq_cons_iff.1 hrest
    obtain ⟨first, more, hfirst, hline⟩ := (hall p (by simp)).exists_first
    refine ⟨_, p.2, first, tokenize_eq_ok_iff.2 ⟨_, _, htext, rfl⟩, ?_,
      TokenStream.line_ne_zero_of_ofText htext (by simp [hfirst]), hst, hline, hentry⟩
    refine ⟨before, more, after, eof, ?_, hstatements, ?_, fun q hq => hclear _ ?_, hfault⟩
    · simp [hfirst]
    · rwa [← hfirst]
    · exact List.mem_map_of_mem hq

/-- **The place of an error of compiling.** A script that is read fails to compile at the first
statement in which something is out of scope. The error has a place if and only if the statement is
an assignment, and then it is the start of the line that the assignment starts on. -/
theorem context_of_toDocument {limit : Nat} {text : List Char} {t : Template} {e : CompileError}
    (h : parseScript limit text = .ok t) (he : t.toDocument = .error e) :
    ∃ tokens st first error, tokenize text = .ok tokens ∧ t.FailsAt tokens st first ∧
      e = .meaning error ∧
      (∀ name value line, st = .assign name value line →
        error.context? = some { line := first.line, column := 1 }) ∧
      ∀ kind value, st = .header kind value → error.context? = none := by
  obtain ⟨tokens, st, first, htokens, hfails, hpos, hst, hline, hentry⟩ :=
    exists_failsAt_of_toDocument h he
  cases st with
  | header kind value =>
    obtain ⟨fault, rfl⟩ := Statement.exists_of_toEntry_header_eq_error hentry
    exact ⟨tokens, _, first, _, htokens, hfails, rfl, fun _ _ _ heq => (by cases heq),
      fun _ _ _ => rfl⟩
  | assign name value line =>
    obtain rfl := hline name value line rfl
    obtain ⟨kind, hkind⟩ := Expr.exists_declKind_of_isDeclaration
      ((isWellFormed_of_parseScript h).assigned name value _ hst)
    obtain ⟨fault, rfl⟩ := Statement.exists_of_toEntry_assign_eq_error hkind hentry
    refine ⟨tokens, _, first, _, htokens, hfails, rfl, fun _ _ _ _ => ?_,
      fun _ _ heq => (by cases heq)⟩
    exact if_neg (Int.natCast_ne_zero.2 hpos)

/-- A script whose second statement, on its third line, has a name that is not declared. -/
private def assignedScript : List Char := "a=Resource T\n\nb=Resource T{p:x}".toList

/-- A script with a name that is not declared in its only statement, a header. -/
private def metadataScript : List Char := "Metadata{A:x}".toList

/-- Whether an error of compiling has no place. -/
private def isPlaceless : CompileError → Bool
  | .meaning error => error.context?.isNone
  | .noSection => false

theorem context_of_assignedScript :
    ∃ t e, parseScript 4 assignedScript = .ok t ∧ t.toDocument = .error e ∧
      ∃ tokens st first error, tokenize assignedScript = .ok tokens ∧
        t.FailsAt tokens st first ∧ e = .meaning error ∧
        (∀ name value line, st = .assign name value line →
          error.context? = some { line := first.line, column := 1 }) ∧
        ∀ kind value, st = .header kind value → error.context? = none := by
  have hread : ((parseScript 4 assignedScript).toOption.any fun t =>
      failsWith (!isPlaceless ·) t.toDocument) = true := by decide +kernel
  obtain ⟨t, hparse, ht⟩ := exists_ok_of_any hread
  obtain ⟨e, hdocument, -⟩ := exists_error_of_failsWith ht
  exact ⟨t, e, hparse, hdocument, context_of_toDocument hparse hdocument⟩

/-- The error in the header has no place, though its statement starts on the first line. -/
theorem context_of_metadataScript :
    ∃ t error, parseScript 4 metadataScript = .ok t ∧ t.toDocument = .error (.meaning error) ∧
      error.context? = none := by
  have hread : ((parseScript 4 metadataScript).toOption.any fun t =>
      failsWith isPlaceless t.toDocument) = true := by decide +kernel
  obtain ⟨t, hparse, ht⟩ := exists_ok_of_any hread
  obtain ⟨e, hdocument, hnone⟩ := exists_error_of_failsWith ht
  cases e with
  | meaning error => exact ⟨t, error, hparse, hdocument, Option.isNone_iff_eq_none.1 hnone⟩
  | noSection => cases hnone

end StackScript
