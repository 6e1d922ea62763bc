import StackScript.Compile
import StackScript.Proofs.Grammar.Progress
import StackScript.Proofs.Grammar.Soundness

/-!
# What a script reads

The walk through the rules of the grammar ends with statements and whole scripts. The tokens of a
script that is read are derived for its statements, which differ in what they declare, and every
script with the same tokens is read as the same template, up to the lines that statements start on.

## Main definitions

* `Template.withoutLines`: a template without the lines of its statements.
* `Template.literals`: the literals in a template.
* `SameTokens`: texts with the same tokens.

## Main results

* `parseScript_of_sameTokens`: texts with the same tokens are read alike.
* `derivesTemplate_of_parseScript`: the tokens of a script that is read form a derivation of its
  template.
* `isReadable_of_parseScript`: a template that is read and has a document can be read back.
-/

namespace StackScript

open Grammar

/-! ### Statements and templates without lines -/

namespace Statement

/-- A statement without the line it starts on. -/
def withoutLine : Statement → Statement
  | .header kind value => .header kind value
  | .assign name value _ => .assign name value 0

/-- The expression in a statement. -/
def expr : Statement → Expr
  | .header _ value => value
  | .assign _ value _ => value

@[simp] theorem subject_withoutLine (st : Statement) : st.withoutLine.subject = st.subject := by
  cases st <;> rfl

/-- What is known of a statement that is read. -/
def IsParsed (limit : Nat) : Statement → Prop
  | .header kind value => ParsedInside limit value ∧ Reader.headerValueFits kind value = true
  | .assign _ value _ => ParsedInside limit value

end Statement

namespace Template

/-- A template without the lines of its statements. -/
def withoutLines (t : Template) : Template := ⟨t.statements.map Statement.withoutLine⟩

/-- The literals in a template. -/
def literals (t : Template) : List Scalar := t.statements.flatMap fun st => st.expr.literals

end Template

namespace Reader

variable {limit : Nat} {token previous : Token}

/-! ### Statements -/

/-- What is known of a statement that is read from tokens, and of the one that is read from other
tokens that say the same. -/
private structure SameStatement (limit : Nat) (ts : List Token) (st st' : Statement) : Prop where
  same : st'.withoutLine = st.withoutLine
  derives : DerivesStatement ts st
  parsed : st.IsParsed limit

private theorem passes_header {kind : Header} (hkind : token.kind = .identifier)
    (hkeyword : token.value = kind.keyword) :
    Passes (· = token) previous (header limit kind) (header limit kind) (SameStatement limit) := by
  refine .advance (by rintro _ rfl; simp [hkind]) ?_
  rintro token _ rfl - -
  refine .current fun t _ _ _ _ => (spans_expression limit token).of_any.bind fun ts value hv => ?_
  by_cases hfits : headerValueFits kind value = true
  · rw [if_pos hfits, if_pos hfits]
    refine .pure_of ?_
    rw [List.append_nil]
    exact ⟨rfl, .header hkind hkeyword hv.derives hfits, hv.parsed, hfits⟩
  · rw [if_neg hfits]
    exact .failAt

private theorem passes_assignment (hkind : token.kind = .identifier ∨ token.kind = .string) :
    Passes (· = token) previous (assignment limit) (assignment limit) (SameStatement limit) := by
  refine .advance (by rintro _ rfl; rcases hkind with hkind | hkind <;> simp [hkind]) ?_
  rintro token token' rfl - hw
  have hvalue' : token'.value = token.value := congrArg Word.value hw
  refine .expect (by decide) fun equals _ _ hequals _ _ => .current fun _ _ _ _ _ => ?_
  refine (spans_expression limit equals).of_any.bind fun ts value hv => ?_
  rw [hvalue']
  by_cases hdeclaration : value.isDeclaration = true
  · rw [if_pos hdeclaration, if_pos hdeclaration]
    refine .pure_of ?_
    rw [List.append_nil]
    exact ⟨rfl, .assign hkind hequals hv.derives hdeclaration, hv.parsed⟩
  · rw [if_neg hdeclaration]
    exact .failAt

private theorem keyword_of_header {word : String} {kind : Header}
    (h : Header.ofKeyword? word = some kind) : word = kind.keyword := by
  have := List.find?_some h
  simpa using (eq_of_beq this).symm

private theorem passes_statement (limit : Nat) (previous : Token) :
    Passes anyToken previous (statement limit) (statement limit) (SameStatement limit) := by
  refine .current fun token token' _ _ hw => ?_
  have hkind' : token'.kind = token.kind := congrArg Word.kind hw
  have hvalue' : token'.value = token.value := congrArg Word.value hw
  rw [hkind', hvalue']
  dsimp only
  split
  next kind hheader =>
    split_ifs at hheader with hkind
    refine .peek fun next next' hw => ?_
    have hkind' : next'.kind = next.kind := congrArg Word.kind hw
    rw [hkind']
    by_cases hequals : next.kind = .equals
    · rw [if_pos hequals]
      exact passes_assignment (.inl hkind)
    · rw [if_neg hequals]
      exact passes_header hkind (keyword_of_header hheader)
  next =>
    by_cases hkind : token.kind = .identifier ∨ token.kind = .string
    · rw [if_pos hkind, if_pos hkind]
      exact passes_assignment hkind
    · rw [if_neg hkind, if_neg hkind]
      exact .current fun _ _ _ _ _ => .failAt

theorem Seen.note_withoutLine (seen : Seen) (st : Statement) :
    seen.note st.withoutLine = seen.note st := by
  cases st <;> rfl

/-- What is known of statements that are read after others, from tokens and from other tokens that
say the same. -/
private structure SameStatements (limit : Nat) (seen : Seen) (ts : List Token)
    (sts sts' : List Statement) : Prop where
  same : sts'.map Statement.withoutLine = sts.map Statement.withoutLine
  parts : ∃ parts : List (List Token × Statement), ts = parts.flatMap Prod.fst ∧
    sts = parts.map Prod.snd ∧ (parts.map fun p => p.2.subject).Nodup ∧
    ∀ p ∈ parts, DerivesStatement p.1 p.2 ∧ p.2.IsParsed limit ∧ ¬ seen.holds p.2.subject

private theorem passes_statements (limit bound : Nat) (seen : Seen) (previous : Token) :
    Passes anyToken previous (statements limit seen bound) (statements limit seen bound)
      (SameStatements limit seen) := by
  have hnil (seen : Seen) : SameStatements limit seen [] [] [] :=
    ⟨rfl, [], rfl, rfl, .nil, by simp⟩
  induction bound generalizing seen previous with
  | zero => exact .pure_of (hnil seen)
  | succ bound ih =>
    refine .current fun token token' _ _ hw => ?_
    have hkind' : token'.kind = token.kind := congrArg Word.kind hw
    rw [hkind']
    by_cases heof : token.kind = .eof
    · rw [if_pos heof, if_pos heof]
      exact .pure_of (hnil seen)
    rw [if_neg heof, if_neg heof]
    refine (passes_statement limit previous).of_any.bind_of fun ts first first' hfirst => ?_
    have hsubject : first'.subject = first.subject := by
      rw [← first'.subject_withoutLine, hfirst.same, first.subject_withoutLine]
    have hnote : seen.note first' = seen.note first := by
      rw [← seen.note_withoutLine first', hfirst.same, seen.note_withoutLine first]
    by_cases hseen : seen.holds first.subject
    · obtain ⟨fault, hfault⟩ := noteStatement_of_holds hseen token
      rw [hfault]
      exact .failAt_bind
    rw [noteStatement_of_not_holds hseen, noteStatement_of_not_holds (hsubject ▸ hseen), hnote,
      pure_bind, pure_bind]
    refine (ih (seen.note first) _).bind_of ?_
    rintro _ _ more' ⟨hmore, parts, rfl, rfl, hnodup, hall⟩
    refine .pure_of ⟨?_, (ts, first) :: parts, by simp, rfl, ?_, ?_⟩
    · rw [List.map_cons, List.map_cons, hfirst.same, hmore]
    · refine List.nodup_cons.2 ⟨fun hmem => ?_, hnodup⟩
      obtain ⟨p, hp, heq⟩ := List.mem_map.1 hmem
      exact (hall p hp).2.2 ((seen.holds_note first _).2 (.inl heq))
    · refine List.forall_mem_cons.2 ⟨⟨hfirst.derives, hfirst.parsed, hseen⟩, fun p hp => ?_⟩
      obtain ⟨hderives, hparsed, hnew⟩ := hall p hp
      exact ⟨hderives, hparsed, fun h => hnew ((seen.holds_note first _).2 (.inr h))⟩

end Reader

/-! ### Scripts -/

/-- Texts without faults whose tokens say the same. -/
inductive SameTokens (text text' : List Char) : Prop
  | mk {ts ts' : List Token} {eof eof' a a' : Token}
      (htext : TokenStream.ofText text = ⟨ts.map .ok, .ok eof⟩)
      (htext' : TokenStream.ofText text' = ⟨ts'.map .ok, .ok eof'⟩) (h : Aligned a a' ts ts')
      (hw : eof'.word = eof.word) : SameTokens text text'

variable {limit : Nat} {text text' : List Char} {t : Template} {ts ts' : List Token}
  {eof eof' : Token}

/-- The states before two texts whose tokens say the same. Nothing stands before the first
tokens. -/
private theorem beside_of_ofText {a a' : Token}
    (htext : TokenStream.ofText text = ⟨ts.map .ok, .ok eof⟩) (h : Aligned a a' ts ts')
    (hw : eof'.word = eof.word) : Beside (ts.headD eof) (ts'.headD eof') ts ts' eof eof' where
  aligned := by
    cases h with
    | nil => exact .nil
    | cons hw _ h => exact .cons hw (.inr (.inr (iff_of_true rfl rfl))) h
  lexical t ht := by
    have hmem : .ok t ∈ (TokenStream.ofText text).items := htext ▸ List.mem_map_of_mem ht
    exact TokenStream.isLexical_of_mem hmem
  eof := TokenStream.kind_of_last (c := .start text) le_rfl (congrArg TokenStream.last htext)
  same_last := hw

/-- What reading a script gives, and reading any other with the same tokens. -/
private theorem parseScript_beside {a a' : Token} (h : parseScript limit text = .ok t)
    (htext : TokenStream.ofText text = ⟨ts.map .ok, .ok eof⟩)
    (htext' : TokenStream.ofText text' = ⟨ts'.map .ok, .ok eof'⟩) (haligned : Aligned a a' ts ts')
    (hw : eof'.word = eof.word) :
    (eof.kind = .eof ∧ DerivesTemplate ts t ∧ ∀ st ∈ t.statements, st.IsParsed limit) ∧
      ∃ t', parseScript limit text' = .ok t' ∧ t'.withoutLines = t.withoutLines := by
  have hbeside := beside_of_ofText htext haligned hw
  obtain ⟨s, u, hstart, hrun, hend⟩ := exists_run_of_parseScript h
  cases (ReaderState.start_of_ofText htext).symm.trans hstart
  have hremaining : (ReaderState.before (ts'.headD eof') ts' eof' 0).remaining =
      (ReaderState.before (ts.headD eof) ts eof 0).remaining := by
    simp [ReaderState.remaining, ReaderState.before, haligned.length_eq]
  obtain ⟨sts, u', hsts, hrun⟩ :=
    Reader.exists_of_run_bind ((Reader.run_bind_ok (Reader.run_get _)).symm.trans hrun)
  cases hrun
  obtain ⟨passed, rest, rest', end', sts', rfl, rfl, hsts', -, hsame, parts, rfl, rfl, hnodup,
    hall⟩ := Reader.passes_statements limit _ {} _ _ ts ts' eof eof' 0 sts u hbeside trivial hsts
  refine ⟨⟨hbeside.eof, ?_, List.forall_mem_map.2 fun p hp => (hall p hp).2.1⟩, ⟨sts'⟩, ?_,
    congrArg Template.mk hsame⟩
  · cases rest with
    | nil =>
      rw [List.append_nil]
      exact .mk (fun p hp => (hall p hp).1) hnodup
    | cons t rest => exact absurd hend (hbeside.lexical t (by simp)).1
  · rw [← hremaining] at hsts'
    rw [parseScript, ReaderState.start_of_ofText htext']
    dsimp only
    rw [Reader.template, Reader.run_bind_ok (Reader.run_get _), Reader.run_bind_ok hsts']
    rfl

/-- Texts with the same tokens are read alike. -/
theorem parseScript_of_sameTokens (h : parseScript limit text = .ok t)
    (hsame : SameTokens text text') :
    ∃ t', parseScript limit text' = .ok t' ∧ t'.withoutLines = t.withoutLines := by
  obtain ⟨htext, htext', haligned, hw⟩ := hsame
  exact (parseScript_beside h htext htext' haligned hw).2

/-- The tokens of a script that is read, up to the end of input, are derived by the grammar, and
something is known of its statements. -/
private theorem exists_derivesTemplate_and (h : parseScript limit text = .ok t) :
    ∃ (ts : List Token) (eof : Token), TokenStream.ofText text = ⟨ts.map .ok, .ok eof⟩ ∧
      eof.kind = .eof ∧ DerivesTemplate ts t ∧ ∀ st ∈ t.statements, st.IsParsed limit := by
  obtain ⟨ts, eof, htext⟩ := exists_ofText_of_parseScript h
  exact ⟨ts, eof, htext, (parseScript_beside h htext htext (.refl eof ts) rfl).1⟩

/-- The tokens of a script that is read, up to the end of input, are derived by the grammar. -/
theorem exists_derivesTemplate (h : parseScript limit text = .ok t) :
    ∃ (ts : List Token) (eof : Token), TokenStream.ofText text = ⟨ts.map .ok, .ok eof⟩ ∧
      eof.kind = .eof ∧ DerivesTemplate ts t := by
  obtain ⟨ts, eof, htext, heof, hderives, -⟩ := exists_derivesTemplate_and h
  exact ⟨ts, eof, htext, heof, hderives⟩

/-- The expressions in a script that is read. -/
theorem isParsed_of_parseScript (h : parseScript limit text = .ok t) :
    (∀ st ∈ t.statements, st.IsParsed limit) ∧ (t.statements.map Statement.subject).Nodup := by
  obtain ⟨ts, eof, -, -, ⟨-, hnodup⟩, hall⟩ := exists_derivesTemplate_and h
  exact ⟨hall, by rwa [List.map_map]⟩

/-- A script that is read has tokens without faults. Up to the end of input they form a derivation
of the template that is read, hence each of them is passed exactly once and in order. -/
theorem derivesTemplate_of_parseScript {limit : Nat} {text : List Char} {t : Template}
    (h : parseScript limit text = .ok t) :
    ∃ (ts : List Token) (eof : Token), tokenize text = .ok (ts ++ [eof]) ∧ eof.kind = .eof ∧
      DerivesTemplate ts t := by
  obtain ⟨ts, eof, htext, heof, hderives⟩ := exists_derivesTemplate h
  refine ⟨ts, eof, ?_, heof, hderives⟩
  rw [tokenize, htext, TokenStream.toList, ← List.map_singleton (f := Except.ok), ← List.map_append]
  exact mapM_eq_ok_iff.2 (List.forall₂_map_left_iff.2 (List.forall₂_same.2 fun _ _ => rfl))

/-- A script with lookahead of all kinds: a keyword as a name, a call, a grouped body, a trailing
comma, and a modifier that ends where its line does. -/
private def lookaheadScript : List Char :=
  ("Description 'd'\nDescription=Parameter({Type:String,})\nq=Resource A::B DependsOn([q])\n" ++
    "Condition=Condition AWS.Region==q['x']").toList

/-- The tokens of the script with lookahead are derived. -/
theorem derivesTemplate_lookaheadScript :
    ∃ t, parseScript 4 lookaheadScript = .ok t ∧ ∃ (ts : List Token) (eof : Token),
      tokenize lookaheadScript = .ok (ts ++ [eof]) ∧ eof.kind = .eof ∧ DerivesTemplate ts t := by
  have hsample : (parseScript 4 lookaheadScript).toOption.isSome = true := by decide +kernel
  cases hparse : parseScript 4 lookaheadScript with
  | error e => simp [hparse, Except.toOption] at hsample
  | ok t => exact ⟨t, rfl, derivesTemplate_of_parseScript hparse⟩

/-- A template that is read and has a document can be read back. -/
theorem isReadable_of_parseScript {limit : Nat} {text : List Char} {t : Template} {document : Value}
    (h : parseScript limit text = .ok t) (hdocument : t.toDocument = .ok document)
    (hfinite : ∀ x, .float x ∈ t.literals → x.isFinite = true) : t.IsReadable limit := by
  obtain ⟨hall, hnodup⟩ := isParsed_of_parseScript h
  refine ⟨fun st hst => ?_, hnodup⟩
  have hexpr : st.expr.IsFinite := fun x hx => hfinite x (List.mem_flatMap.2 ⟨st, hst, hx⟩)
  obtain ⟨entries, hentries, -⟩ := bind_eq_ok_iff.1 hdocument
  obtain ⟨entry, -, hentry⟩ := exists_of_mapM_eq_ok hentries hst
  have hparsed := hall st hst
  cases st with
  | header kind value =>
    obtain ⟨⟨hl, hvalue⟩, hfits⟩ := hparsed
    obtain ⟨v, hv, -⟩ := Statement.toEntry_header_eq_ok_iff.1 hentry
    exact ⟨hl, hvalue.readable hexpr (.inr ⟨_, v, hv⟩), hfits⟩
  | assign name value line =>
    obtain ⟨hl, hvalue⟩ := hparsed
    obtain ⟨-, v, -, hv, -⟩ := Statement.toEntry_assign_eq_ok_iff.1 hentry
    exact ⟨hl, hvalue.declared hexpr ⟨_, v, hv⟩⟩

end StackScript
