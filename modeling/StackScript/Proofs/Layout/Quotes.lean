import StackScript.Proofs.Layout.Marks
import StackScript.Proofs.Token.Division

/-!
# Quotes of the layout and strings of the lexer

The layout marks the characters inside quotes one by one, and the lexer reads whole strings. In a
text without comments they agree: outside strings no lexeme has a quote in it, and inside a string
the quote that opened it comes again only at the end, if what a backslash takes away is left out.
In a comment a quote may stay open, so there they need not agree.

## Main definitions

* `DividedAs`: the lexemes of a whole text.
* `HasComment`: a text with a comment between its lexemes.
* `Token.Covers`: the characters of the lexeme of a token.
* `Layout.isQuotedAt`: the characters that the layout marks.

## Main results

* `DividedAs.unique`: a text divides into lexemes in one way.
* `Layout.mark_join`: what is marked in a text without comments.
* `Layout.isQuotedAt_iff_covers`: the characters that are marked are those of strings.
-/

namespace StackScript

open Text Piece

/-! ### The lexemes of a text -/

/-- The lexemes of a whole text, with the gaps before them and the gap at the end. -/
structure DividedAs (text : List Char) (pieces : List Piece) (last : List Char) : Prop where
  join_eq : join pieces last = text
  divided : Divided pieces last
  gap : IsGap true last

theorem DividedAs.splitLayout_nil {text last : List Char} (h : DividedAs text [] last) :
    splitLayout false text = (text, []) := by
  obtain ⟨rfl, -, hgap⟩ := h
  have hsplit := @IsGap.splitLayout_append _ _ [] hgap (fun _ => rfl) rfl
  rwa [List.append_nil] at hsplit

section Cons

variable {text last : List Char} {p : Piece} {ps : List Piece}

theorem DividedAs.splitLayout_cons (h : DividedAs text (p :: ps) last) :
    splitLayout false text = (p.gap, p.chars ++ join ps last) := by
  obtain ⟨rfl, hdivided, -⟩ := h
  cases hdivided with
  | cons hg hl => exact hg.splitLayout_append (by simp) (hl.splitLayout_append _)

theorem DividedAs.read_cons (h : DividedAs text (p :: ps) last) :
    Lexeme.read (p.chars ++ join ps last) =
      ⟨.ok (p.word.kind, p.word.value.toList), p.chars, join ps last⟩ := by
  cases h.divided with
  | cons _ hl he => exact (Lexeme.read_eq_iff hl.ne_nil).2 ⟨hl, he⟩

theorem DividedAs.chars_ne_nil (h : DividedAs text (p :: ps) last) : p.chars ≠ [] := by
  cases h.divided with
  | cons _ hl => exact hl.ne_nil

theorem DividedAs.tail (h : DividedAs text (p :: ps) last) : DividedAs (join ps last) ps last := by
  cases h.divided with
  | cons _ _ _ hdivided => exact ⟨rfl, hdivided, h.gap⟩

/-- A text that is one gap does not start with a lexeme. -/
theorem DividedAs.not_nil {last' : List Char} (h : DividedAs text (p :: ps) last) :
    ¬ DividedAs text [] last' := by
  intro h'
  have hsplit := h'.splitLayout_nil.symm.trans h.splitLayout_cons
  exact h.chars_ne_nil (List.append_eq_nil_iff.1 (Prod.mk.inj hsplit).2.symm).1

end Cons

/-- **A text divides into lexemes in one way.** -/
theorem DividedAs.unique {text last last' : List Char} {pieces pieces' : List Piece}
    (h : DividedAs text pieces last) (h' : DividedAs text pieces' last') :
    pieces = pieces' ∧ last = last' := by
  induction pieces generalizing text pieces' with
  | nil =>
    cases pieces' with
    | nil => exact ⟨rfl, h.join_eq.trans h'.join_eq.symm⟩
    | cons => exact absurd h h'.not_nil
  | cons p ps ih =>
    cases pieces' with
    | nil => exact absurd h' h.not_nil
    | cons p' ps' =>
      obtain ⟨hgap, htext⟩ := Prod.mk.inj (h.splitLayout_cons.symm.trans h'.splitLayout_cons)
      have hread := h.read_cons.symm.trans (htext ▸ h'.read_cons)
      obtain ⟨hword, hchars, hrest⟩ := Lexeme.mk.inj hread
      obtain ⟨hkind, hvalue⟩ := Prod.mk.inj (Except.ok.inj hword)
      obtain ⟨rfl, rfl⟩ := ih h.tail (hrest ▸ h'.tail)
      obtain ⟨gap, chars, kind, value⟩ := p
      obtain ⟨gap', chars', kind', value'⟩ := p'
      obtain rfl : gap = gap' := hgap
      obtain rfl : chars = chars' := hchars
      obtain rfl : kind = kind' := hkind
      obtain rfl : value = value' := String.toList_inj.1 hvalue
      exact ⟨rfl, rfl⟩

theorem exists_dividedAs_of_tokenize {text : List Char} {tokens : List Token}
    (h : tokenize text = .ok tokens) : ∃ pieces last, DividedAs text pieces last ∧
      tokens = Piece.tokens [] pieces ++ [Word.eof.tokenAfter text] := by
  obtain ⟨pieces, rest, rfl, hdivided, hgap | ⟨gap, more, fault, rfl, hgap, hfault⟩⟩ :=
    exists_divided text
  · rw [tokenize_join hdivided hgap] at h
    exact ⟨pieces, rest, ⟨rfl, hdivided, hgap⟩, (Except.ok.inj h).symm⟩
  · obtain ⟨ts, eof, htext, -⟩ := tokenize_eq_ok_iff.1 h
    obtain ⟨limit, hanswers⟩ := TokenStream.ofText_join hdivided
    exact absurd (hanswers.symm.trans htext)
      (TokenStream.ne_of_head_error (TokenStream.ofCursor_fault hgap hfault limit))

/-- A text with a comment in a gap between its lexemes, before the first one or after the last. -/
def HasComment (text : List Char) : Prop :=
  ∃ pieces last, DividedAs text pieces last ∧
    ∃ gap ∈ last :: pieces.map Piece.gap, ∃ c ∈ gap, isBlank c = false

/-- The lexeme of a token of a text has the character at an index in it. -/
def Token.Covers (t : Token) (text : List Char) (i : Nat) : Prop :=
  ∃ ps p more last, DividedAs text (ps ++ p :: more) last ∧ t = p.word.tokenAfter (join ps p.gap) ∧
    (join ps p.gap).length ≤ i ∧ i < (join ps (p.gap ++ p.chars)).length

namespace Layout

/-! ### Marks of lexemes -/

/-- Between its quotes a string does not end. -/
private theorem markFrom_escaped {quote : Char} {body value : List Char}
    (h : Escaped quote body value) (rest : List Char) :
    markFrom (some quote) false (body ++ rest) =
      body.map (·, true) ++ markFrom (some quote) false rest := by
  induction h with
  | nil => rfl
  | plain hq hb _ ih => simp [markFrom, hq, hb, ih]
  | escape _ ih => simp [markFrom, ih]

private theorem mark_string {quote : Char} {body value : List Char}
    (hq : quote = '"' ∨ quote = '\'') (h : Escaped quote body value) (rest : List Char) :
    mark (quote :: (body ++ [quote]) ++ rest) =
      (quote :: (body ++ [quote])).map (·, true) ++ mark rest := by
  have hquote : (quote == '\'' || quote == '"') = true := by simpa [or_comm] using hq
  have hback : (quote == '\\') = false := by rcases hq with rfl | rfl <;> rfl
  have hbody := markFrom_escaped h (quote :: rest)
  simpa [mark, markFrom, hquote, hback] using hbody

theorem isQuote_eq_false_of_isIdentifierPart {c : Char} (h : isIdentifierPart c = true) :
    isQuote c = false := by
  cases hc : isQuote c with
  | false => rfl
  | true =>
    rw [isQuote, Bool.or_eq_true, beq_iff_eq, beq_iff_eq] at hc
    rcases hc with rfl | rfl <;> exact absurd h (by decide)

/-- There is a quote in no lexeme but a string. -/
private theorem isQuote_of_isLexeme {kind : TokenKind} {chars value : List Char}
    (h : IsLexeme kind chars value) (hk : kind ≠ .string) : ∀ c ∈ chars, isQuote c = false := by
  cases h with
  | identifier h =>
    rw [isWord, Bool.and_eq_true, List.all_eq_true] at h
    exact fun c hc => isQuote_eq_false_of_isIdentifierPart (h.1 c hc)
  | number h =>
    obtain ⟨sign, whole, fraction, rfl, hsign, ⟨-, hwhole⟩, hfraction⟩ := h.parts
    have hdigit {c : Char} (h : Number.isDigit c = true) : isQuote c = false :=
      isQuote_eq_false_of_isIdentifierPart (isIdentifierPart_iff.2 (.inr h))
    rw [List.forall_mem_append, List.forall_mem_append]
    refine ⟨⟨?_, fun c hc => hdigit (hwhole c hc)⟩, ?_⟩
    · rcases hsign with rfl | rfl
      · simp
      · exact List.forall_mem_singleton.2 rfl
    · rcases hfraction with rfl | ⟨digits, rfl, -, hdigits⟩
      · simp
      · exact List.forall_mem_cons.2 ⟨rfl, fun c hc => hdigit (hdigits c hc)⟩
  | string => exact absurd rfl hk
  | sign => exact forall_mem_of_all (by cases kind <;> decide)

/-- All of a string is marked, and nothing of another lexeme. -/
theorem mark_lexeme {kind : TokenKind} {chars value : List Char} (h : IsLexeme kind chars value)
    (rest : List Char) :
    mark (chars ++ rest) = chars.map (·, decide (kind = .string)) ++ mark rest := by
  by_cases hk : kind = .string
  · obtain ⟨quote, body, rfl, hq, hbody⟩ := h.exists_quote hk
    rw [hk, decide_eq_true rfl]
    exact mark_string hq hbody rest
  · have hquotes := isQuote_of_isLexeme h hk
    rw [(Closed.of_forall hquotes).mark_append, mark_of_forall hquotes, decide_eq_false hk]

/-! ### Marks of texts -/

/-- The marks of pieces in a row: those of strings are set. -/
def pieceMarks : List Piece → List Char → List (Char × Bool)
  | [], last => last.map (·, false)
  | p :: ps, last => p.gap.map (·, false) ++
      (p.chars.map (·, decide (p.word.kind = .string)) ++ pieceMarks ps last)

private theorem mark_blanks {gap : List Char} (h : ∀ c ∈ gap, isBlank c = true)
    (rest : List Char) : mark (gap ++ rest) = gap.map (·, false) ++ mark rest := by
  have hquotes (c : Char) (hc : c ∈ gap) : isQuote c = false := isQuote_eq_false_of_isBlank (h c hc)
  rw [(Closed.of_forall hquotes).mark_append, mark_of_forall hquotes]

/-- **What is marked in a text without comments.** -/
theorem mark_join {pieces : List Piece} {last : List Char} (h : Divided pieces last)
    (hlast : ∀ c ∈ last, isBlank c = true) (hgaps : ∀ p ∈ pieces, ∀ c ∈ p.gap, isBlank c = true) :
    mark (join pieces last) = pieceMarks pieces last := by
  induction h with
  | nil => simpa [join, pieceMarks, mark, markFrom] using mark_blanks hlast []
  | @cons p ps last _ hl _ _ ih =>
    rw [List.forall_mem_cons] at hgaps
    rw [join, mark_blanks hgaps.1, mark_lexeme hl, ih hlast hgaps.2, pieceMarks]

/-- Whether the mark at an index is set. -/
def isSetAt (marks : List (Char × Bool)) (i : Nat) : Bool := marks[i]?.any Prod.snd

/-- Whether the character at an index of a text is marked. -/
def isQuotedAt (text : List Char) (i : Nat) : Bool := isSetAt (mark text) i

private theorem isSetAt_map (cs : List Char) (b : Bool) (i : Nat) :
    isSetAt (cs.map (·, b)) i = (decide (i < cs.length) && b) := by
  rw [isSetAt, List.getElem?_map, Option.any_map]
  by_cases hi : i < cs.length <;> simp [hi]

private theorem isSetAt_append (marks more : List (Char × Bool)) (i : Nat) :
    isSetAt (marks ++ more) i =
      if i < marks.length then isSetAt marks i else isSetAt more (i - marks.length) := by
  rw [isSetAt, List.getElem?_append]
  split_ifs <;> rfl

private theorem isSetAt_pieceMarks_cons (p : Piece) (ps : List Piece) (last : List Char) (i : Nat) :
    isSetAt (pieceMarks (p :: ps) last) i =
      if i < p.gap.length then false
      else if i < p.gap.length + p.chars.length then decide (p.word.kind = .string)
      else isSetAt (pieceMarks ps last) (i - (p.gap.length + p.chars.length)) := by
  rw [pieceMarks, isSetAt_append, isSetAt_append, isSetAt_map, isSetAt_map, List.length_map,
    List.length_map, Nat.sub_sub]
  split_ifs with hgap hchars hchars'
  · simp
  · simp [hchars]
  · omega
  · omega
  · rfl

/-- The marks that are set are those of the characters of strings. -/
private theorem isSetAt_pieceMarks_iff {pieces : List Piece} {last : List Char} {i : Nat} :
    isSetAt (pieceMarks pieces last) i = true ↔
      ∃ ps p more, pieces = ps ++ p :: more ∧ p.word.kind = .string ∧
        (join ps p.gap).length ≤ i ∧ i < (join ps (p.gap ++ p.chars)).length := by
  induction pieces generalizing i with
  | nil => simp [pieceMarks, isSetAt_map]
  | cons q qs ih =>
    rw [isSetAt_pieceMarks_cons]
    constructor
    · intro h
      split_ifs at h with hgap hchars
      · exact ⟨[], q, qs, rfl, of_decide_eq_true h, Nat.le_of_not_lt hgap,
          by simpa [join] using hchars⟩
      · obtain ⟨ps, p, more, rfl, hk, hle, hlt⟩ := ih.1 h
        refine ⟨q :: ps, p, more, rfl, hk, ?_, ?_⟩ <;>
          (simp only [join, List.length_append]; omega)
    · rintro ⟨ps, p, more, heq, hk, hle, hlt⟩
      cases ps with
      | nil =>
        obtain ⟨rfl, rfl⟩ := List.cons.inj heq
        rw [join] at hle hlt
        rw [List.length_append] at hlt
        rw [if_neg (Nat.not_lt.2 hle), if_pos hlt, hk, decide_eq_true rfl]
      | cons q' ps =>
        obtain ⟨rfl, rfl⟩ := List.cons.inj heq
        simp only [join, List.length_append] at hle hlt
        rw [if_neg (by omega), if_neg (by omega)]
        exact ih.2 ⟨ps, p, more, rfl, hk, by omega, by omega⟩

/-! ### Marks and strings -/

private theorem mem_tokens (before : List Char) (ps more : List Piece) (p : Piece) :
    p.word.tokenAfter (before ++ join ps p.gap) ∈ Piece.tokens before (ps ++ p :: more) := by
  induction ps generalizing before with
  | nil => exact List.mem_cons_self
  | cons q ps ih =>
    have hjoin : before ++ join (q :: ps) p.gap =
        before ++ q.gap ++ q.chars ++ join ps p.gap := by simp [join]
    rw [hjoin]
    exact List.mem_cons_of_mem _ (ih _)

/-- What is marked in a text without comments, told by any division of it. -/
private theorem isQuotedAt_iff_of_dividedAs {text last : List Char} {pieces : List Piece}
    (h : DividedAs text pieces last) (hc : ¬ HasComment text) (i : Nat) :
    isQuotedAt text i = true ↔ ∃ ps p more, pieces = ps ++ p :: more ∧ p.word.kind = .string ∧
      (join ps p.gap).length ≤ i ∧ i < (join ps (p.gap ++ p.chars)).length := by
  have hblank {gap : List Char} (hgap : gap ∈ last :: pieces.map Piece.gap) :
      ∀ c ∈ gap, isBlank c = true := by
    intro c hmem
    by_contra hne
    exact hc ⟨pieces, last, h, gap, hgap, c, hmem, Bool.eq_false_iff.2 hne⟩
  have hmark := mark_join h.divided (hblank List.mem_cons_self) fun p hp =>
    hblank (List.mem_cons_of_mem _ (List.mem_map_of_mem hp))
  rw [h.join_eq] at hmark
  rw [isQuotedAt, hmark, isSetAt_pieceMarks_iff]

/-- **The layout marks the strings of the lexer.** In a text without comments that can be divided
into tokens, a character is marked if and only if it belongs to the lexeme of a string. -/
theorem isQuotedAt_iff_covers {text : List Char} {tokens : List Token}
    (h : tokenize text = .ok tokens) (hc : ¬ HasComment text) (i : Nat) :
    isQuotedAt text i = true ↔ ∃ t ∈ tokens, t.kind = .string ∧ t.Covers text i := by
  constructor
  · intro hi
    obtain ⟨pieces, last, hdivides, rfl⟩ := exists_dividedAs_of_tokenize h
    obtain ⟨ps, p, more, rfl, hk, hle, hlt⟩ := (isQuotedAt_iff_of_dividedAs hdivides hc i).1 hi
    exact ⟨p.word.tokenAfter (join ps p.gap), List.mem_append_left _ (mem_tokens [] ps more p), hk,
      ps, p, more, last, hdivides, rfl, hle, hlt⟩
  · rintro ⟨t, -, hk, ps, p, more, last, hdivides, rfl, hle, hlt⟩
    exact (isQuotedAt_iff_of_dividedAs hdivides hc i).2 ⟨ps, p, more, rfl, hk, hle, hlt⟩

/-- Both kinds of quotes, each inside the other or after a backslash, and a hash in a string. -/
private def quotedHash : List Char := "x 'a\\'#\"'\"\\\\'\"".toList

private theorem dividedAs_quotedHash : DividedAs quotedHash
    [⟨[], ['x'], .identifier, .ofList ['x']⟩,
      ⟨[' '], "'a\\'#\"'".toList, .string, .ofList ['a', '\'', '#', '"']⟩,
      ⟨[], "\"\\\\'\"".toList, .string, .ofList ['\\', '\'']⟩] [] :=
  ⟨by decide, .cons_read .nil (by decide) rfl (.cons_read (.blank (by decide) .nil) (by decide) rfl
    (.cons_read .nil (by decide) rfl .nil)), .nil⟩

theorem isQuotedAt_quotedHash_iff_covers :
    ∃ tokens, tokenize quotedHash = .ok tokens ∧ ¬ HasComment quotedHash ∧
      ∀ i, isQuotedAt quotedHash i = true ↔
        ∃ t ∈ tokens, t.kind = .string ∧ t.Covers quotedHash i := by
  have hcomment : ¬ HasComment quotedHash := by
    rintro ⟨pieces, last, hdivides, gap, hgap, c, hc, hblank⟩
    obtain ⟨rfl, rfl⟩ := dividedAs_quotedHash.unique hdivides
    obtain rfl : c = ' ' := by simpa using List.mem_flatten_of_mem hgap hc
    exact absurd hblank (by decide)
  have hread : (tokenize quotedHash).toOption.isSome = true := by decide +kernel
  obtain ⟨tokens, htokens⟩ := exists_ok_of_isSome hread
  exact ⟨tokens, htokens, hcomment, isQuotedAt_iff_covers htokens hcomment⟩

end Layout

end StackScript
