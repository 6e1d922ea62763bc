import StackScript.Proofs.Context
import StackScript.Proofs.Grammar.Places
import StackScript.Proofs.Token.Division

/-!
# What errors of reading point to

The tokens of a text stand where its lexemes start, the end of input stands at its end, and a fault
stands at the characters that nothing can be read from. So every error of reading a script that has
a place points to one of these, and the line and the caret that are shown with it fit the text.

## Main definitions

* `IsTokenStart`: the place of a lexeme of a text.
* `LexFault.Names`: characters that a fault is about, `IsFaultStart` their place in a text.
* `ScriptError.PointsAfter`: what an error points to.

## Main results

* `Places.stream_ofText`: the places of the tokens of a text, and of its first fault.
* `exists_context_of_parseScript`: every error with a place points into the text.
-/

namespace StackScript

open Text Piece

/-! ### Faults -/

/-- A fault is about the characters that a text starts with. -/
def LexFault.Names (text : List Char) : LexFault → Prop
  | .unterminatedString => ∃ quote body, (quote = '"' ∨ quote = '\'') ∧ text = quote :: body ∧
      Lexeme.quotedBody quote body = none
  | .malformedNumber number => number.toList <+: text
  | .loneAmpersand => text.head? = some '&'
  | .lonePipe => text.head? = some '|'
  | .unexpected c => text.head? = some c

namespace Lexeme

variable {fault : LexFault}

/-- A number is refused together with the first character that it runs into. -/
private theorem names_of_readNumber {sign text : List Char}
    (h : (readNumber sign text).result = .error fault) :
    ∃ number : String, fault = .malformedNumber number ∧
      number.toList <+: (readNumber sign text).passed ++ (readNumber sign text).rest := by
  revert h
  simp only [readNumber]
  generalize (text.dropWhile Number.isDigit).drop _ = rest
  split
  next c more =>
    split_ifs
    all_goals intro h; cases h
    refine ⟨_, rfl, ?_⟩
    rw [String.toList_ofList, List.prefix_append_right_inj]
    exact ⟨more, rfl⟩
  · intro h
    cases h

private theorem names_of_readOne {c : Char} {text : List Char}
    (h : (readOne c text).result = .error fault)
    (happend : (readOne c text).passed ++ (readOne c text).rest = c :: text) :
    fault.Names (c :: text) := by
  revert h happend
  unfold readOne
  split
  · intro h
    cases h
  split_ifs with hquote hdigit hsign hstart hampersand hpipe
  · intro h _
    unfold readString at h
    split at h
    next => cases h
    next hbody =>
      cases h
      exact ⟨c, text, hquote, rfl, hbody⟩
  -- Numbers, without a sign and with one.
  iterate 2
    · intro h happend
      obtain ⟨number, rfl, hprefix⟩ := names_of_readNumber h
      rwa [happend] at hprefix
  all_goals
    intro h _
    cases h
  · exact congrArg some hampersand
  · exact congrArg some hpipe
  · rfl

/-- A fault is about the characters that nothing could be read from. -/
theorem names_of_read {text : List Char} (hne : text ≠ [])
    (h : (read text).result = .error fault) : fault.Names text := by
  have happend := append_read text
  revert h happend
  unfold read
  split
  · exact absurd rfl hne
  · exact names_of_readOne
  · split
    · intro h
      cases h
    · exact names_of_readOne

end Lexeme

/-! ### Places in a text -/

namespace Piece

theorem join_append_pieces (pieces others : List Piece) (rest : List Char) :
    join (pieces ++ others) rest = join pieces (join others rest) := by
  induction pieces with
  | nil => rfl
  | cons p ps ih => rw [List.cons_append, join, join, ih]

/-- A token of some pieces is that of one of them, and stands where its lexeme starts. -/
theorem exists_of_mem_tokens {before : List Char} {pieces : List Piece} {t : Token}
    (h : t ∈ tokens before pieces) :
    ∃ ps p others, pieces = ps ++ p :: others ∧
      t = p.word.tokenAfter (before ++ join ps p.gap) := by
  induction pieces generalizing before with
  | nil => cases h
  | cons p pieces ih =>
    rcases List.mem_cons.1 h with rfl | h
    · exact ⟨[], p, pieces, rfl, rfl⟩
    · obtain ⟨ps, q, others, rfl, rfl⟩ := ih h
      exact ⟨p :: ps, q, others, rfl, by simp [join]⟩

end Piece

/-- The first ones of some pieces are read before the text of the others. -/
theorem Divided.of_append {pieces others : List Piece} {rest : List Char}
    (h : Divided (pieces ++ others) rest) : Divided pieces (join others rest) := by
  induction pieces with
  | nil => exact .nil
  | cons p ps ih =>
    cases h with
    | cons hg hl he h => exact .cons hg hl (join_append_pieces ps others rest ▸ he) (ih h)

/-- After some characters of a text stands a lexeme: it comes after others that are read from the
start of the text, and after a gap. -/
def IsTokenStart (text before : List Char) : Prop :=
  ∃ pieces p rest, join (pieces ++ [p]) rest = text ∧ Divided (pieces ++ [p]) rest ∧
    before = join pieces p.gap

/-- After some characters of a text stand those that a fault is about, and nothing can be read from
them: they come after lexemes that are read from the start of the text, and after a gap. -/
def IsFaultStart (text before : List Char) (fault : LexFault) : Prop :=
  ∃ pieces gap rest, join pieces (gap ++ rest) = text ∧ Divided pieces (gap ++ rest) ∧
    IsGap false gap ∧ fault.Blocks rest ∧ fault.Names rest ∧ before = join pieces gap

theorem IsTokenStart.exists_append {text before : List Char} (h : IsTokenStart text before) :
    ∃ rest, text = before ++ rest := by
  obtain ⟨pieces, p, rest, rfl, -, rfl⟩ := h
  rw [join_append_pieces, join, join_append]
  exact ⟨_, rfl⟩

theorem IsFaultStart.exists_append {text before : List Char} {fault : LexFault}
    (h : IsFaultStart text before fault) : ∃ rest, text = before ++ rest := by
  obtain ⟨pieces, gap, rest, rfl, -, -, -, -, rfl⟩ := h
  exact ⟨rest, join_append ..⟩

/-! ### The tokens of a text -/

/-- What is known of the tokens and faults of a text: a token stands at a lexeme or at the end, and
a fault at the characters that it is about. -/
def Places.ofText (text : List Char) : Places where
  token t := ∃ before, (IsTokenStart text before ∨ before = text) ∧ t.line = lineAfter before ∧
    t.column = columnAfter before
  fault e := ∃ before, IsFaultStart text before e.fault ∧ e.line = lineAfter before ∧
    e.column = columnAfter before

/-- **The places of the tokens of a text**, and of its first fault. -/
theorem Places.stream_ofText (text : List Char) : (Places.ofText text).Stream (.ofText text) := by
  obtain ⟨pieces, rest, rfl, hdivided, hend⟩ := exists_divided text
  obtain ⟨limit, hanswers⟩ := TokenStream.ofText_join hdivided
  have htokens : ∀ t ∈ tokens [] pieces, (Places.ofText (join pieces rest)).token t := by
    intro t ht
    obtain ⟨ps, p, others, rfl, rfl⟩ := exists_of_mem_tokens ht
    rw [List.append_cons] at hdivided ⊢
    refine ⟨join ps p.gap, .inl ⟨ps, p, join others rest, ?_, hdivided.of_append, rfl⟩, rfl, rfl⟩
    rw [← join_append_pieces]
  rw [hanswers, Stream, List.append_assoc, answers_map_ok_append]
  refine ⟨htokens, ?_⟩
  rcases hend with hlast | ⟨gap, more, fault, rfl, hgap, hfault⟩
  · rw [TokenStream.ofCursor_eof hlast, ← join_append, List.nil_append]
    exact ⟨⟨_, .inr rfl, rfl, rfl⟩, trivial⟩
  · have hnames := Lexeme.names_of_read hfault.ne_nil hfault.fails
    refine Stream.of_head_error (TokenStream.ofCursor_fault hgap hfault limit) ?_
    rw [← join_append, List.nil_append]
    exact ⟨_, ⟨pieces, gap, more, rfl, hdivided, hgap, hfault, hnames, rfl⟩, rfl, rfl⟩

/-! ### Errors -/

/-- What an error points to: a fault to the characters that it is about, and any other error with a
place to a lexeme or to the end of the text. -/
def ScriptError.PointsAfter (text before : List Char) : ScriptError → Prop
  | .lex e => IsFaultStart text before e.fault
  | .parse _ => IsTokenStart text before ∨ before = text
  | .integerTooLong => False

theorem ScriptError.PointsAfter.exists_append {text before : List Char} {e : ScriptError}
    (h : e.PointsAfter text before) : ∃ rest, text = before ++ rest := by
  cases e with
  | lex e => exact IsFaultStart.exists_append h
  | parse e =>
    rcases h with h | rfl
    · exact h.exists_append
    · exact ⟨[], (List.append_nil _).symm⟩
  | integerTooLong => exact h.elim

theorem exists_pointsAfter_of_parseScript {limit : Nat} {text : List Char} {e : ScriptError}
    (h : parseScript limit text = .error e) (hplace : e ≠ .integerTooLong) :
    ∃ before, e.PointsAfter text before ∧
      e.place? = some (lineAfter before, columnAfter before) := by
  have hmarks := Places.marks_of_parseScript (Places.stream_ofText text) h
  cases e with
  | lex e =>
    obtain ⟨before, hfault, hline, hcolumn⟩ := hmarks
    exact ⟨before, hfault, by rw [← hline, ← hcolumn]; rfl⟩
  | parse e =>
    obtain ⟨t, ⟨before, htoken, hline, hcolumn⟩, heline, hecolumn⟩ := hmarks
    exact ⟨before, htoken, by rw [← hline, ← hcolumn, ← heline, ← hecolumn]; rfl⟩
  | integerTooLong => exact absurd rfl hplace

/-- **Errors point into the text.** An error of reading a script is refused without a place only if
an integer is too long. Any other error has a place, which is that of a lexeme, of the end of the
text, or of the characters that a fault is about. It lies in a line of the script, which is shown
with a caret under the place. -/
theorem exists_context_of_parseScript {limit : Nat} {source : Source} {e : ScriptError}
    (h : parseScript limit source.text = .error e) (hplace : e ≠ .integerTooLong) :
    ∃ ctx before row pad, e.context? source = some ctx ∧ ctx.file = source.file ∧
      e.PointsAfter source.text before ∧ ctx.line = lineAfter before ∧
      ctx.column = columnAfter before ∧ ctx.LiesIn source.text row ∧ ctx.PutsCaret row pad := by
  obtain ⟨before, hpoints, hat⟩ := exists_pointsAfter_of_parseScript h hplace
  obtain ⟨rest, htext⟩ := hpoints.exists_append
  have hlies := Source.liesIn_context htext
  refine ⟨_, before, _, _, ?_, rfl, hpoints, rfl, rfl, hlies, hlies.putsCaret⟩
  rw [ScriptError.context?, hat]
  rfl

/-- A value that a header does not allow, in a line that starts with a tab. -/
private def tabbedScript : Source := { text := "Description\n\t1".toList }

theorem exists_context_tabbedScript :
    ∃ e, parseScript 8 tabbedScript.text = .error e ∧ e.place? = some (2, 2) ∧
      ∃ ctx before row pad, e.context? tabbedScript = some ctx ∧ ctx.file = tabbedScript.file ∧
        e.PointsAfter tabbedScript.text before ∧ ctx.line = lineAfter before ∧
        ctx.column = columnAfter before ∧ ctx.LiesIn tabbedScript.text row ∧
        ctx.PutsCaret row pad := by
  have hfails : failsWith (fun e => e.place? == some (2, 2)) (parseScript 8 tabbedScript.text) =
      true := by decide +kernel
  obtain ⟨e, h, hat⟩ := exists_error_of_failsWith hfails
  rw [beq_iff_eq] at hat
  refine ⟨e, h, hat, exists_context_of_parseScript h ?_⟩
  rintro rfl
  cases hat

end StackScript
