import StackScript.Proofs.Grammar.Statements
import StackScript.Proofs.Spelling.Expressions

/-!
# Scripts are read back from their spelling

The statements of a script stand on lines of their own, with an empty line between them. As every
statement is spelled on one line, the tokens of the script are those of its statements, and reading
the script gives the statements back. A template that was read from a script and has a document is
readable under the same nesting limit, hence its spelling never nests deeper than the script did.

## Main definitions

* `OnLines`: tokens that say lists of words on lines of their own.

## Main results

* `exists_scan_of_spelled`: the words of texts with empty lines between them.
* `Statement.IsReadable.exists_spelled`: statements are read back from their spelling.
* `Template.IsReadable.exists_spell`: so are templates.
* `parseScript_spell_of_parseScript`: a template that was read is read back.
-/

namespace StackScript

open Reader Text

/-! ### Statements -/

theorem Declared.isDeclaration {levels : Nat} {e : Expr} (h : Declared levels e) :
    e.isDeclaration = true := by
  cases h <;> rfl

theorem spelled_header (kind : Header) {text : List Char} {ws : List Word} (h : Spelled text ws) :
    Spelled (kind.keyword.toList ++ ' ' :: text) (.ident kind.keyword :: ws) := by
  have hword : isWord kind.keyword.toList = true := by cases kind <;> decide
  have hkeyword : Spelled kind.keyword.toList [.ident kind.keyword] :=
    (spelled_word hword).imp fun _ => Ends.endsName
  exact hkeyword.space_append h

theorem spelled_assign (name : String) {text : List Char} {ws : List Word} (h : Spelled text ws) :
    Spelled (spellKey name.toList ++ " = ".toList ++ text)
      (keyWord name :: .sign .equals :: ws) := by
  have hkey : Spelled (spellKey name.toList) [keyWord name] :=
    (spelled_key name).imp fun _ => Ends.endsName
  have hassign : Spelled ('=' :: ' ' :: text) (.sign .equals :: ws) := fun rest vs hrest hvs =>
    .single (c := '=') rfl (by rintro d ⟨⟩; rfl) (h rest vs hrest hvs).space
  simpa using hkey.space_append hassign

/-- Statements are read back from their spelling. -/
theorem Statement.IsReadable.exists_spelled {limit : Nat} {st : Statement}
    (h : st.IsReadable limit) :
    ∃ text ws, st.spell = .ok text ∧ Spelled text ws ∧
      ∀ line, ReadsStatement line limit st ws := by
  cases st with
  | header kind value =>
    obtain ⟨hl, hvalue, hfits⟩ := h
    obtain ⟨text, ws, hwritten⟩ := hvalue.exists_isWritten (by decide)
    refine ⟨_, _, ?_, spelled_header kind hwritten.spelled_text, fun line =>
      .header (Grammar.Worded.readsInside hwritten.words (Nat.sub_one_lt_of_lt hl)) hfits⟩
    rw [Statement.spell, hwritten.spell]
    rfl
  | assign name value start =>
    obtain ⟨hl, hvalue⟩ := h
    obtain ⟨text, ws, hspell, hspelled, hreads⟩ := hvalue.exists_spelled
    refine ⟨_, _, ?_, spelled_assign name hspelled, fun line => .assign (keyWord_kind name)
      (keyWord_value name) ?_ hvalue.isDeclaration⟩
    · rw [Statement.spell, hspell]
      rfl
    · have := hreads line limit
      rwa [Nat.sub_add_cancel hl] at this

/-! ### Statements on lines of their own -/

/-- Words that no line ends between are said by tokens on one line. -/
private theorem Placed.of_append {line : Nat} {ws : List Word} {vs : List (Bool × Word)}
    {ts : List Token} (h : Placed line (ws.map (false, ·) ++ vs) ts) :
    ∃ us more, ts = us ++ more ∧ us.map Token.word = ws ∧ (∀ t ∈ us, t.line = line) ∧
      Placed line vs more := by
  induction ws generalizing ts with
  | nil => exact ⟨[], ts, rfl, rfl, by simp, h⟩
  | cons w ws ih =>
    cases h with
    | @cons _ _ t _ ts hw hl hb hmore =>
      have hline : t.line = line := by
        have : ¬ line < t.line := fun hlt => by simpa using hb.1 hlt
        omega
      rw [hline] at hmore
      obtain ⟨us, more, rfl, hus, hlines, hplaced⟩ := ih hmore
      exact ⟨t :: us, more, rfl, by rw [List.map_cons, hus, hw],
        List.forall_mem_cons.2 ⟨hline, hlines⟩, hplaced⟩

/-- A word that a line ends before is said by a token on another line. -/
private theorem Placed.of_newline {line : Nat} {vs : List (Bool × Word)} {ts : List Token}
    (h : Placed line (vs.modifyHead fun w => (true, w.2)) ts) :
    (∀ t ∈ ts.head?, t.line ≠ line) ∧ ∃ line', Placed line' vs ts := by
  cases vs with
  | nil =>
    cases h
    exact ⟨by simp, line, .nil⟩
  | cons w vs =>
    cases h with
    | @cons _ _ t _ ts hw hl hb hmore =>
      have hlt : line < t.line := hb.2 rfl
      refine ⟨fun t' ht' => ?_, ?_⟩
      · cases ht'
        omega
      · cases hflag : w.1 with
        | true => exact ⟨line, .cons hw hl (by simp [hlt, hflag]) hmore⟩
        | false => exact ⟨t.line, .cons hw le_rfl (by simp [hflag]) hmore⟩

private theorem Scan.eq_nil_of_newlines {gap : List Char} {vs : List (Bool × Word)}
    (hgap : ∀ c ∈ gap, c = '\n') (h : Scan gap vs) : vs = [] := by
  cases h with
  | done => rfl
  | lexeme _ hb _ =>
    -- A lexeme has a first character, and that ends no line.
    obtain ⟨c, hc⟩ := List.exists_mem_of_ne_nil _ hb.ne_nil
    have hnewline := hgap c (by simp [hc])
    exact absurd (hnewline ▸ hc) hb.oneLine

/-- Tokens that say lists of words, each on a line of its own. -/
inductive OnLines : List (List Word) → List Token → Prop
  | nil : OnLines [] []
  | cons {line : Nat} {us more : List Token} {wss : List (List Word)}
      (hline : ∀ t ∈ us, t.line = line) (hhead : ∀ t ∈ more.head?, t.line ≠ line)
      (h : OnLines wss more) : OnLines (us.map Token.word :: wss) (us ++ more)

theorem OnLines.map_word {wss : List (List Word)} {ts : List Token} (h : OnLines wss ts) :
    ts.map Token.word = wss.flatten := by
  induction h with
  | nil => rfl
  | cons _ _ _ ih => rw [List.map_append, ih, List.flatten_cons]

/-- Texts with empty lines between them, and line ends after them. -/
theorem exists_scan_of_spelled {texts : List (List Char)} {wss : List (List Word)}
    (h : List.Forall₂ Spelled texts wss) {gap : List Char} (hgap : ∀ c ∈ gap, c = '\n') :
    ∃ vs, Scan (List.intercalate ['\n', '\n'] texts ++ gap) vs ∧
      ∀ line ts, Placed line vs ts → OnLines wss ts := by
  have hblank : ∀ c ∈ gap, isBlank c = true := fun c hc => hgap c hc ▸ rfl
  induction h with
  | nil =>
    refine ⟨[], .done (by simpa using hblank), fun line ts hplaced => ?_⟩
    cases hplaced
    exact .nil
  | @cons text ws texts wss hspelled hmore ih =>
    obtain ⟨vs, hscan, hplaces⟩ := ih
    -- What follows the first text: line ends, or an empty line and the other texts.
    obtain ⟨rest, vs', htext, hends, hscan', hrest⟩ : ∃ rest vs',
        List.intercalate ['\n', '\n'] (text :: texts) ++ gap = text ++ rest ∧ Ends rest ∧
          Scan rest vs' ∧ ∀ line ts, Placed line vs' ts →
            (∀ t ∈ ts.head?, t.line ≠ line) ∧ OnLines wss ts := by
      cases texts with
      | nil =>
        obtain rfl := Scan.eq_nil_of_newlines (by simpa using hgap) hscan
        have hends : Ends gap := fun c hc => by simp [hgap c (List.mem_of_mem_head? hc)]
        refine ⟨gap, [], by simp, hends, .done hblank, fun line ts hplaced => ?_⟩
        cases hplaced
        exact ⟨by simp, hplaces line [] .nil⟩
      | cons text' texts =>
        refine ⟨_, _, by rw [List.intercalate_cons_cons, List.append_assoc, List.append_assoc]; rfl,
          ends_cons (c := '\n') (by decide), hscan.newline.newline, fun line ts hplaced => ?_⟩
        obtain ⟨hhead, line', hplaced'⟩ := hplaced.of_newline
        obtain ⟨-, line'', hplaced''⟩ := hplaced'.of_newline
        exact ⟨hhead, hplaces line'' ts hplaced''⟩
    refine ⟨ws.map (false, ·) ++ vs', ?_, fun line ts hplaced => ?_⟩
    · rw [htext]
      exact hspelled rest vs' hends hscan'
    · obtain ⟨us, more, rfl, rfl, hlines, hplaced'⟩ := hplaced.of_append
      obtain ⟨hhead, hmore⟩ := hrest line more hplaced'
      exact .cons hlines hhead hmore

/-- The spellings of statements in order. -/
theorem exists_spell_statements {R : Statement → List Word → Prop} {sts : List Statement}
    (h : ∀ st ∈ sts, ∃ text ws, st.spell = .ok text ∧ Spelled text ws ∧ R st ws) :
    ∃ texts wss, sts.mapM Statement.spell = .ok texts ∧ List.Forall₂ Spelled texts wss ∧
      List.Forall₂ R sts wss := by
  induction sts with
  | nil => exact ⟨[], [], rfl, .nil, .nil⟩
  | cons st sts ih =>
    rw [List.forall_mem_cons] at h
    obtain ⟨text, ws, hspell, hspelled, hws⟩ := h.1
    obtain ⟨texts, wss, hspells, hmore, hwss⟩ := ih h.2
    refine ⟨text :: texts, ws :: wss, ?_, .cons hspelled hmore, .cons hws hwss⟩
    rw [List.mapM_cons, hspell, hspells]
    rfl

private theorem readsScript_of_onLines {limit : Nat} {sts : List Statement}
    {wss : List (List Word)} {ts : List Token}
    (h : List.Forall₂ (fun st ws => ∀ line, ReadsStatement line limit st ws) sts wss)
    (hts : OnLines wss ts) : ReadsScript limit sts ts := by
  induction h generalizing ts with
  | nil =>
    cases hts
    exact .nil
  | cons hst _ ih =>
    cases hts with
    | cons hline hhead hmore => exact .cons hline (hst _) hhead (ih hmore)

/-- The spellings of statements with empty lines between them, and line ends after them. -/
theorem exists_scan_of_isReadable {limit : Nat} {sts : List Statement} {gap : List Char}
    (hgap : ∀ c ∈ gap, c = '\n') (h : ∀ st ∈ sts, st.IsReadable limit) :
    ∃ texts vs, sts.mapM Statement.spell = .ok texts ∧
      Scan (List.intercalate ['\n', '\n'] texts ++ gap) vs ∧
      ∀ line ts, Placed line vs ts → ReadsScript limit sts ts := by
  obtain ⟨texts, wss, hspell, hspelled, hreads⟩ :=
    exists_spell_statements fun st hst => (h st hst).exists_spelled
  obtain ⟨vs, hscan, hlines⟩ := exists_scan_of_spelled hspelled hgap
  exact ⟨texts, vs, hspell, hscan, fun line ts hplaced =>
    readsScript_of_onLines hreads (hlines line ts hplaced)⟩

/-! ### Scripts -/

/-- Readable templates are read back from their spelling, also if more lines end after it. -/
theorem Template.IsReadable.exists_spell_append {limit : Nat} {t : Template}
    (h : t.IsReadable limit) (gap : List Char) (hgap : ∀ c ∈ gap, c = '\n') :
    ∃ raw t', t.spell = .ok raw ∧ parseScript limit (raw ++ gap) = .ok t' ∧
      t'.withoutLines = t.withoutLines := by
  obtain ⟨texts, vs, hspell, hscan, hscript⟩ := exists_scan_of_isReadable hgap h.statements
  obtain ⟨ts, eof, htext, heof, hplaced⟩ := TokenStream.ofText_of_scan hscan
  obtain ⟨t', ht', hlines⟩ := parseScript_of_readsScript htext (congrArg Word.kind heof)
    (hscript 1 ts hplaced) h.nodup
  refine ⟨_, t', ?_, ht', hlines⟩
  rw [Template.spell, hspell]
  rfl

/-- Readable templates are read back from their spelling. -/
theorem Template.IsReadable.exists_spell {limit : Nat} {t : Template} (h : t.IsReadable limit) :
    ∃ raw t', t.spell = .ok raw ∧ parseScript limit raw = .ok t' ∧
      t'.withoutLines = t.withoutLines := by
  obtain ⟨raw, t', hraw, ht', hlines⟩ := h.exists_spell_append [] (by simp)
  exact ⟨raw, t', hraw, raw.append_nil ▸ ht', hlines⟩

/-- **Scripts are read back.** A template that was read from a script and has a document has a
spelling, which is read under the same nesting limit as the same template, up to the lines that
statements start on, provided that no floating-point literal is infinite. -/
theorem parseScript_spell_of_parseScript {limit : Nat} {text : List Char} {t : Template}
    {document : Value} (h : parseScript limit text = .ok t) (hdocument : t.toDocument = .ok document)
    (hfinite : ∀ x, .float x ∈ t.literals → x.isFinite = true) :
    ∃ raw t', t.spell = .ok raw ∧ parseScript limit raw = .ok t' ∧
      t'.withoutLines = t.withoutLines :=
  (isReadable_of_parseScript h hdocument hfinite).exists_spell

/-- A script without spaces, and with parentheses that it needs. -/
private def sampleScript : List Char :=
  "n=Parameter{Default:-0.5}\nC=Condition !(n==1)&&(true||false)".toList

/-- The sample script is read back from its spelling with no more levels than it needs. -/
theorem parseScript_spell_sampleScript :
    ∃ t raw t', parseScript 4 sampleScript = .ok t ∧ t.spell = .ok raw ∧
      parseScript 4 raw = .ok t' ∧ t'.withoutLines = t.withoutLines := by
  have hsample : (match parseScript 4 sampleScript with
      | .ok t => t.toDocument.toOption.isSome && t.literals.all fun
        | .float x => x.isFinite
        | _ => true
      | .error _ => false) = true := by decide +kernel
  cases hparse : parseScript 4 sampleScript with
  | error e => simp [hparse] at hsample
  | ok t =>
    simp only [hparse, Bool.and_eq_true, List.all_eq_true] at hsample
    cases hdocument : t.toDocument with
    | error e => simp [hdocument, Except.toOption] at hsample
    | ok document =>
      obtain ⟨raw, t', hspell, ht', hlines⟩ :=
        parseScript_spell_of_parseScript hparse hdocument fun x hx => hsample.2 _ hx
      exact ⟨t, raw, t', rfl, hspell, ht', hlines⟩

end StackScript
