import StackScript.Proofs.Outcome
import StackScript.Proofs.Text.Lines
import StackScript.Proofs.Token.Lexical

/-!
# Texts as gaps and lexemes

Every text divides, up to its end or to the first fault in it, into lexemes with gaps before them.
Its tokens are those of the lexemes, each with the place at which the lexeme starts. Nothing is lost
and nothing is read twice, and since a lexeme ends alike before every gap, the tokens do not change
with the gaps, as long as none is opened or closed.

## Main definitions

* `Piece`: a lexeme with the gap before it and the word that it says.
* `Piece.join`, `Piece.tokens`: the text and the tokens of pieces in a row.
* `Divided`: pieces that are read one after the other before a rest.
* `Relaid`: a text with other gaps between its lexemes.

## Main results

* `exists_divided`: every text divides up to its end or to a fault.
* `TokenStream.ofText_join`: the answers that a divided text gives.
* `tokenize_eq_ok_iff_divided`: the tokens of a text are those of its pieces.
* `tokenize_of_relaid`: other gaps give tokens that say the same.
-/

namespace StackScript

open Text Number

/-! ### Places -/

theorem Position.after_append (p : Position) (cs ds : List Char) :
    p.after (cs ++ ds) = (p.after cs).after ds := List.foldl_append

/-- The position after some characters of a text. -/
theorem Position.after_eq (before : List Char) :
    ({} : Position).after before = ⟨before.length, lineAfter before, columnAfter before⟩ := by
  induction before using List.reverseRecOn with
  | nil => rfl
  | append_singleton before c ih =>
    rw [Position.after_append, ih]
    by_cases hc : c = '\n' <;>
      simp [Position.after, Position.step, hc, lineAfter, columnAfter, lastLine]

/-- The token that says a word and starts after some characters of a text. -/
def Word.tokenAfter (w : Word) (before : List Char) : Token :=
  ⟨w.kind, w.value, lineAfter before, columnAfter before⟩

/-- The word of the end of input. -/
def Word.eof : Word := ⟨.eof, ""⟩

/-! ### Pieces of a text -/

/-- A lexeme with the gap before it and the word that it says. -/
structure Piece where
  gap : List Char
  chars : List Char
  word : Word

namespace Piece

/-- The text of pieces in a row before a rest. -/
def join : List Piece → List Char → List Char
  | [], rest => rest
  | p :: ps, rest => p.gap ++ (p.chars ++ join ps rest)

/-- The tokens of pieces in a row after some characters of a text. -/
def tokens (before : List Char) : List Piece → List Token
  | [] => []
  | p :: ps => p.word.tokenAfter (before ++ p.gap) :: tokens (before ++ p.gap ++ p.chars) ps

theorem join_append (pieces : List Piece) (text rest : List Char) :
    join pieces (text ++ rest) = join pieces text ++ rest := by
  induction pieces with
  | nil => rfl
  | cons p ps ih => simp [join, ih]

theorem map_word_tokens (before : List Char) (pieces : List Piece) :
    (tokens before pieces).map Token.word = pieces.map Piece.word := by
  induction pieces generalizing before with
  | nil => rfl
  | cons p ps ih =>
    rw [tokens, List.map_cons, ih]
    rfl

end Piece

open Piece

/-- Pieces that are read one after the other, with a rest of the text after them: each consists of
a gap and of a lexeme that says the word, and that ends before what follows. -/
inductive Divided : List Piece → List Char → Prop
  | nil {rest : List Char} : Divided [] rest
  | cons {p : Piece} {ps : List Piece} {rest : List Char} (hg : IsGap false p.gap)
      (hl : IsLexeme p.word.kind p.chars p.word.value.toList)
      (he : EndsBefore p.word.kind p.chars (join ps rest)) (h : Divided ps rest) :
      Divided (p :: ps) rest

/-- Nothing can be read at the start of a text, for a given reason. -/
structure LexFault.Blocks (fault : LexFault) (text : List Char) : Prop where
  ne_nil : text ≠ []
  start : splitLayout false text = ([], text)
  fails : (Lexeme.read text).result = .error fault

/-- **Every text divides** into pieces up to its end or to the first fault. -/
theorem exists_divided (text : List Char) :
    ∃ pieces rest, join pieces rest = text ∧ Divided pieces rest ∧
      (IsGap true rest ∨ ∃ gap more fault, rest = gap ++ more ∧ IsGap false gap ∧
        LexFault.Blocks fault more) := by
  induction hn : text.length using Nat.strong_induction_on generalizing text with
  | h n ih =>
    subst hn
    cases hsplit : splitLayout false text with
    | mk gap more =>
      obtain ⟨rfl, hgap, hstart⟩ := splitLayout_eq_iff.1 hsplit
      by_cases hne : more = []
      · subst hne
        exact ⟨[], _, rfl, .nil, .inl (by simpa using hgap)⟩
      replace hgap : IsGap false gap := by
        rwa [List.isEmpty_eq_false_iff.2 hne] at hgap
      cases hresult : (Lexeme.read more).result with
      | error fault =>
        exact ⟨[], _, rfl, .nil, .inr ⟨gap, more, fault, rfl, hgap, hne, hstart, hresult⟩⟩
      | ok said =>
        obtain ⟨hlexeme, hstops⟩ := Lexeme.isLexeme_and_stops_of_read hne hresult
        have happend := Lexeme.append_read more
        have hpos := List.length_pos_iff.2 hlexeme.ne_nil
        have hlength := congrArg List.length happend
        rw [List.length_append] at hlength
        obtain ⟨pieces, rest, hjoin, hdivided, hend⟩ := ih (Lexeme.read more).rest.length
          (by rw [List.length_append]; omega) _ rfl
        refine ⟨⟨gap, (Lexeme.read more).passed, said.1, String.ofList said.2⟩ :: pieces, rest,
          ?_, ?_, hend⟩
        · rw [join, hjoin, happend]
        · refine .cons hgap (by simpa using hlexeme) ?_ hdivided
          rw [hjoin]
          exact hlexeme.endsBefore_iff_stops.2 hstops

/-! ### The next token -/

/-- The cursor after some characters of a text. -/
def Cursor.past (before rest : List Char) : Cursor := ⟨rest, ({} : Position).after before⟩

namespace Cursor

variable {before gap chars rest : List Char} {w : Word}

theorem skipLayout_past (h : splitLayout false rest = (gap, chars)) :
    (past before rest).skipLayout = past (before ++ gap) chars := by
  simp only [skipLayout, past, h, move, Position.after_append]

/-- The next token is that of the next lexeme. -/
theorem next_lexeme (hg : IsGap false gap) (hl : IsLexeme w.kind chars w.value.toList)
    (he : EndsBefore w.kind chars rest) :
    (past before (gap ++ (chars ++ rest))).next =
      (.ok (w.tokenAfter (before ++ gap)), past (before ++ gap ++ chars) rest) := by
  have hskip := hg.splitLayout_append (by simp) (hl.splitLayout_append rest)
  have hread := (Lexeme.read_eq_iff hl.ne_nil).2 ⟨hl, he⟩
  simp only [next, skipLayout_past hskip]
  simp only [past, hread, move, Position.after_append, String.ofList_toList, Word.tokenAfter,
    Position.after_eq (before ++ gap)]

/-- After the last lexeme comes the end of input. -/
theorem next_eof (hg : IsGap true gap) :
    (past before gap).next =
      (.ok (Word.eof.tokenAfter (before ++ gap)), past (before ++ gap) []) := by
  have hskip := @IsGap.splitLayout_append _ _ [] hg (fun _ => rfl) rfl
  rw [List.append_nil] at hskip
  simp only [next, skipLayout_past hskip]
  simp only [past, Lexeme.read, move, Position.after_eq (before ++ gap), Word.tokenAfter]
  rfl

theorem next_fault {fault : LexFault} (hg : IsGap false gap) (hf : fault.Blocks rest) :
    (past before (gap ++ rest)).next.1 =
      .error ⟨fault, lineAfter (before ++ gap), columnAfter (before ++ gap)⟩ := by
  have hskip := hg.splitLayout_append (by simp) hf.start
  simp only [next, skipLayout_past hskip]
  simp only [past, hf.fails, Position.after_eq]

end Cursor

/-! ### All tokens -/

namespace TokenStream

variable {before gap chars rest : List Char} {pieces : List Piece} {limit : Nat}

theorem ofCursor_eof (hg : IsGap true gap) (limit : Nat) :
    ofCursor limit (.past before gap) = ⟨[], .ok (Word.eof.tokenAfter (before ++ gap))⟩ := by
  have hskip := @IsGap.splitLayout_append _ _ [] hg (fun _ => rfl) rfl
  rw [List.append_nil] at hskip
  cases limit with
  | zero => rw [ofCursor, Cursor.next_eof hg]
  | succ limit =>
    simp only [ofCursor, Cursor.next_eof hg, Cursor.skipLayout_past hskip]
    rfl

theorem ofCursor_fault {fault : LexFault} (hg : IsGap false gap) (hf : fault.Blocks rest)
    (limit : Nat) :
    (ofCursor limit (.past before (gap ++ rest))).head =
      .error ⟨fault, lineAfter (before ++ gap), columnAfter (before ++ gap)⟩ := by
  rw [← Cursor.next_fault hg hf]
  cases limit with
  | zero => rfl
  | succ limit =>
    simp only [ofCursor]
    split_ifs <;> rfl

theorem ofCursor_lexeme {w : Word} (hg : IsGap false gap)
    (hl : IsLexeme w.kind chars w.value.toList) (he : EndsBefore w.kind chars rest) (limit : Nat) :
    ofCursor (limit + 1) (.past before (gap ++ (chars ++ rest))) =
      ⟨.ok (w.tokenAfter (before ++ gap)) ::
        (ofCursor limit (.past (before ++ gap ++ chars) rest)).items,
        (ofCursor limit (.past (before ++ gap ++ chars) rest)).last⟩ := by
  have hskip := hg.splitLayout_append (by simp) (hl.splitLayout_append rest)
  have hread := (Lexeme.read_eq_iff hl.ne_nil).2 ⟨hl, he⟩
  have hpassed : (Lexeme.read (chars ++ rest)).passed.isEmpty = false := by
    rw [hread]
    exact List.isEmpty_eq_false_iff.2 hl.ne_nil
  simp only [ofCursor, Cursor.next_lexeme hg hl he, Cursor.skipLayout_past hskip]
  exact if_neg (Bool.eq_false_iff.1 hpassed)

/-- The answers of a cursor before pieces of a text are their tokens, and then those after them. -/
theorem ofCursor_join (h : Divided pieces rest) (hlimit : (join pieces rest).length ≤ limit) :
    ∃ more, ofCursor limit (.past before (join pieces rest)) =
      ⟨(tokens before pieces).map .ok ++
          (ofCursor more (.past (before ++ join pieces []) rest)).items,
        (ofCursor more (.past (before ++ join pieces []) rest)).last⟩ := by
  induction h generalizing before limit with
  | nil => exact ⟨limit, by simp [tokens, join]⟩
  | @cons p ps rest hg hl he _ ih =>
    have hpos := List.length_pos_iff.2 hl.ne_nil
    simp only [join, List.length_append] at hlimit
    obtain ⟨limit, rfl⟩ : ∃ n, limit = n + 1 := ⟨limit - 1, by omega⟩
    obtain ⟨more, hmore⟩ := @ih (before ++ p.gap ++ p.chars) limit (by omega)
    refine ⟨more, ?_⟩
    rw [join, ofCursor_lexeme hg hl he, hmore]
    simp [tokens, join]

/-- **The answers that a divided text gives.** -/
theorem ofText_join (h : Divided pieces rest) :
    ∃ limit, ofText (join pieces rest) =
      ⟨(tokens [] pieces).map .ok ++ (ofCursor limit (.past (join pieces []) rest)).items,
        (ofCursor limit (.past (join pieces []) rest)).last⟩ :=
  @ofCursor_join [] rest pieces _ h le_rfl

theorem ofText_join_eof (h : Divided pieces rest) (hend : IsGap true rest) :
    ofText (join pieces rest) =
      ⟨(tokens [] pieces).map .ok, .ok (Word.eof.tokenAfter (join pieces rest))⟩ := by
  obtain ⟨limit, htext⟩ := ofText_join h
  rw [htext, ofCursor_eof hend, List.append_nil, ← join_append, List.nil_append]

/-- Answers among which there is a fault are not those of a text without faults. -/
theorem ne_of_head_error {ts ts' : List Token} {eof : Token} {s : TokenStream}
    {e : LexError} (h : s.head = .error e) :
    (⟨ts.map .ok ++ s.items, s.last⟩ : TokenStream) ≠ ⟨ts'.map .ok, .ok eof⟩ := by
  intro heq
  obtain ⟨hitems, hlast⟩ := TokenStream.mk.inj heq
  obtain ⟨items, last⟩ := s
  cases items with
  | nil => cases h.symm.trans hlast
  | cons item items =>
    obtain rfl : item = .error e := h
    have hmem : .error e ∈ ts'.map Except.ok := by simp [← hitems]
    simp at hmem

end TokenStream

/-- The tokens of a text without faults. -/
theorem tokenize_eq_ok_iff {text : List Char} {tokens : List Token} :
    tokenize text = .ok tokens ↔
      ∃ ts eof, TokenStream.ofText text = ⟨ts.map .ok, .ok eof⟩ ∧ tokens = ts ++ [eof] := by
  have hlist : tokenize text = .ok tokens ↔
      (TokenStream.ofText text).items ++ [(TokenStream.ofText text).last] = tokens.map .ok := by
    rw [tokenize, TokenStream.toList, mapM_eq_ok_iff, ← List.forall₂_eq_eq_eq,
      List.forall₂_map_right_iff]
    rfl
  rw [hlist]
  constructor
  · intro h
    rcases tokens.eq_nil_or_concat with rfl | ⟨ts, eof, rfl⟩
    · simp at h
    · rw [List.concat_eq_append] at h ⊢
      rw [List.map_append, List.map_singleton] at h
      obtain ⟨hitems, hlast⟩ := List.append_inj' h rfl
      exact ⟨ts, eof, by rw [← hitems, ← List.singleton_inj.1 hlast], rfl⟩
  · rintro ⟨ts, eof, htext, rfl⟩
    rw [htext, List.map_append, List.map_singleton]

/-- The tokens of pieces up to the end of a text. -/
theorem tokenize_join {pieces : List Piece} {last : List Char} (h : Divided pieces last)
    (hlast : IsGap true last) :
    tokenize (join pieces last) =
      .ok (Piece.tokens [] pieces ++ [Word.eof.tokenAfter (join pieces last)]) :=
  tokenize_eq_ok_iff.2 ⟨_, _, TokenStream.ofText_join_eof h hlast, rfl⟩

/-- **Tokens and text.** A text has given tokens if and only if it divides, up to its end, into
gaps and lexemes that say the words of the tokens. Each lexeme is as long as possible and starts at
the place of its token, and the end of input stands at the end of the text. -/
theorem tokenize_eq_ok_iff_divided {text : List Char} {tokens : List Token} :
    tokenize text = .ok tokens ↔ ∃ pieces last, join pieces last = text ∧ Divided pieces last ∧
      IsGap true last ∧ tokens = Piece.tokens [] pieces ++ [Word.eof.tokenAfter text] := by
  constructor
  · intro h
    obtain ⟨pieces, rest, rfl, hdivided, hend⟩ := exists_divided text
    rcases hend with hend | ⟨gap, more, fault, rfl, hgap, hfault⟩
    · rw [tokenize_join hdivided hend] at h
      exact ⟨pieces, rest, rfl, hdivided, hend, (Except.ok.inj h).symm⟩
    · obtain ⟨ts, eof, htext, -⟩ := tokenize_eq_ok_iff.1 h
      obtain ⟨limit, hanswers⟩ := TokenStream.ofText_join hdivided
      exact absurd (hanswers.symm.trans htext)
        (TokenStream.ne_of_head_error (TokenStream.ofCursor_fault hgap hfault limit))
  · rintro ⟨pieces, last, rfl, hdivided, hend, rfl⟩
    exact tokenize_join hdivided hend

/-! ### Other gaps -/

/-- A piece with another gap before the same lexeme. Where there was a gap there is one still; where
there was none, one may stand now. -/
structure Piece.Relaid (p p' : Piece) : Prop where
  chars : p'.chars = p.chars
  word : p'.word = p.word
  gap : IsGap false p'.gap
  kept : p'.gap = [] → p.gap = []

/-- A text with other gaps between its lexemes, before the first one and after the last one. -/
def Relaid (text text' : List Char) : Prop :=
  ∃ pieces last pieces' last', join pieces last = text ∧ Divided pieces last ∧ IsGap true last ∧
    List.Forall₂ Piece.Relaid pieces pieces' ∧ IsGap true last' ∧ join pieces' last' = text'

/-- A gap starts with a blank or with a comment. -/
theorem IsGap.head {atEnd : Bool} {gap : List Char} (h : IsGap atEnd gap) :
    ∀ c ∈ gap.head?, isBlank c = true ∨ c = '#' ∨ c = '/' := by
  intro c hc
  cases h with
  | nil => cases hc
  | blank hblank _ =>
    obtain rfl := Option.some.inj hc
    exact .inl hblank
  | comment ho _ _ _ =>
    simp only [List.mem_cons, List.not_mem_nil, or_false] at ho
    rcases ho with rfl | rfl
    · exact .inr (.inl (Option.some.inj hc).symm)
    · exact .inr (.inr (Option.some.inj hc).symm)

/-- What starts a gap continues no lexeme. -/
private theorem continues_of_gap {c : Char} (h : isBlank c = true ∨ c = '#' ∨ c = '/') :
    isIdentifierPart c = false ∧ c ≠ '.' ∧ ∀ a, Lexeme.pairKind? a c = none := by
  have hpart : isIdentifierPart c = false := by
    rcases h with h | rfl | rfl
    · rw [Bool.eq_false_iff]
      intro hc
      rw [isBlank_eq_false_of_isIdentifierPart hc] at h
      cases h
    · decide
    · decide
  refine ⟨hpart, ?_, fun a => ?_⟩
  · rintro rfl
    rcases h with h | h | h <;> exact absurd h (by decide)
  · cases hk : Lexeme.pairKind? a c with
    | none => rfl
    | some kind =>
      unfold Lexeme.pairKind? at hk
      split at hk
      all_goals first
        | exact absurd h (by decide)
        | cases hk

private theorem IsLexeme.eq_nil_of_dot {kind : TokenKind} {chars value : List Char}
    (h : IsLexeme kind ('.' :: chars) value) : chars = [] := by
  have hprefix := (Lexeme.prefix_passed_read h []).length_le
  rw [List.cons_append, Lexeme.read_cons_of_notMem (by decide)] at hprefix
  exact List.eq_nil_of_length_eq_zero (Nat.le_zero.1 (Nat.le_of_succ_le_succ hprefix))

section Relaying

variable {pieces pieces' : List Piece} {last last' : List Char}

/-- With other gaps a text starts with a gap or with the character that it started with. -/
private theorem head_relaid (h : List.Forall₂ Piece.Relaid pieces pieces')
    (hd : Divided pieces last) (hlast : IsGap true last') :
    ∀ c ∈ (join pieces' last').head?,
      (isBlank c = true ∨ c = '#' ∨ c = '/') ∨ c ∈ (join pieces last).head? := by
  intro c hc
  cases h with
  | nil => exact .inl (hlast.head c hc)
  | @cons p p' ps ps' hp _ =>
    cases hd with
    | cons _ hl =>
      obtain ⟨d, more, hchars, -⟩ := hl.exists_cons
      rw [join, hp.chars, hchars] at hc
      rw [join, hchars]
      by_cases hnil : p'.gap = []
      · rw [hp.kept hnil]
        rw [hnil] at hc
        exact .inr hc
      · obtain ⟨e, gap, hgap⟩ := List.exists_cons_of_ne_nil hnil
        have hstart := hp.gap.head
        rw [hgap] at hc hstart
        exact .inl (hstart c hc)

/-- With other gaps a text starts with a point and a digit only if it did so before. -/
private theorem point_relaid (h : List.Forall₂ Piece.Relaid pieces pieces')
    (hd : Divided pieces last) (hlast : IsGap true last') {c : Char} {more : List Char}
    (heq : join pieces' last' = '.' :: c :: more) (hc : isDigit c = true) :
    ∃ more', join pieces last = '.' :: c :: more' := by
  have hnot : ¬ (isBlank '.' = true ∨ '.' = '#' ∨ '.' = '/') := by decide
  cases h with
  | nil => exact absurd (hlast.head '.' (by rw [show last' = _ from heq]; rfl)) hnot
  | @cons p p' ps ps' hp hps =>
    cases hd with
    | cons _ hl _ hd =>
      obtain ⟨d, chars, hchars, -⟩ := hl.exists_cons
      rw [join, hp.chars, hchars] at heq
      have hnil : p'.gap = [] := by
        by_contra hne
        obtain ⟨e, gap, hgap⟩ := List.exists_cons_of_ne_nil hne
        rw [hgap] at heq
        obtain rfl : e = '.' := (List.cons.inj heq).1
        exact hnot (hp.gap.head _ (by rw [hgap]; rfl))
      rw [hnil, List.nil_append, List.cons_append] at heq
      obtain ⟨rfl, htail⟩ := List.cons.inj heq
      -- The lexeme is the point alone, so the digit starts what follows.
      rw [hchars] at hl
      obtain rfl := hl.eq_nil_of_dot
      rw [List.nil_append] at htail
      obtain hgap | hsame := head_relaid hps hd hlast c (by rw [htail]; rfl)
      · have hpart := (continues_of_gap hgap).1
        rw [isIdentifierPart_iff.2 (.inr hc)] at hpart
        cases hpart
      · obtain ⟨more', hmore⟩ := List.head?_eq_some_iff.1 hsame
        exact ⟨more', by rw [join, hp.kept hnil, hchars, hmore]; rfl⟩

/-- What ends before a text ends before the text with other gaps. -/
private theorem stops_relaid (h : List.Forall₂ Piece.Relaid pieces pieces')
    (hd : Divided pieces last) (hlast : IsGap true last') {kind : TokenKind} {chars : List Char}
    (hs : Lexeme.Stops kind chars (join pieces last)) :
    Lexeme.Stops kind chars (join pieces' last') where
  word hkind c hc := (head_relaid h hd hlast c hc).elim (fun hgap => (continues_of_gap hgap).1)
    (hs.word hkind c)
  point hkind hnone c more heq := by
    by_contra hc
    rw [Bool.not_eq_false] at hc
    obtain ⟨more', hmore⟩ := point_relaid h hd hlast heq hc
    rw [hs.point hkind hnone c more' hmore] at hc
    cases hc
  pair a ha c hc := (head_relaid h hd hlast c hc).elim (fun hgap => (continues_of_gap hgap).2.2 a)
    (hs.pair a ha c)

/-- Pieces with other gaps are read one after the other as well. -/
theorem Divided.relaid (hd : Divided pieces last) (h : List.Forall₂ Piece.Relaid pieces pieces')
    (hlast : IsGap true last') : Divided pieces' last' := by
  induction h with
  | nil => exact .nil
  | @cons p p' ps ps' hp hps ih =>
    cases hd with
    | cons _ hl he hd =>
      have hs := stops_relaid hps hd hlast (hl.endsBefore_iff_stops.1 he)
      rw [← hp.chars, ← hp.word] at hl hs
      exact .cons hp.gap hl (hl.endsBefore_iff_stops.2 hs) (ih hd)

theorem map_word_relaid (h : List.Forall₂ Piece.Relaid pieces pieces') :
    pieces'.map Piece.word = pieces.map Piece.word := by
  induction h with
  | nil => rfl
  | cons hp _ ih => rw [List.map_cons, List.map_cons, ih, hp.word]

end Relaying

/-- **Gaps do not change what tokens say.** A text with other gaps between its lexemes has tokens of
the same kinds and with the same texts. -/
theorem tokenize_of_relaid {text text' : List Char} {tokens : List Token}
    (h : tokenize text = .ok tokens) (hr : Relaid text text') :
    ∃ tokens', tokenize text' = .ok tokens' ∧ tokens'.map Token.word = tokens.map Token.word := by
  obtain ⟨pieces, last, pieces', last', rfl, hdivided, hlast, hpieces, hlast', rfl⟩ := hr
  have htokens := tokenize_join hdivided hlast
  rw [h] at htokens
  obtain rfl := Except.ok.inj htokens
  refine ⟨_, tokenize_join (hdivided.relaid hpieces hlast') hlast', ?_⟩
  rw [List.map_append, List.map_append, map_word_tokens, map_word_tokens, map_word_relaid hpieces]
  rfl

theorem Divided.cons_read {gap chars value rest : List Char} {kind : TokenKind}
    {ps : List Piece} (hg : IsGap false gap) (hne : chars ≠ [])
    (hread : Lexeme.read (chars ++ join ps rest) = ⟨.ok (kind, value), chars, join ps rest⟩)
    (h : Divided ps rest) : Divided (⟨gap, chars, kind, String.ofList value⟩ :: ps) rest := by
  obtain ⟨hlexeme, hends⟩ := (Lexeme.read_eq_iff hne).1 hread
  exact .cons hg (by rwa [String.toList_ofList]) hends h

/-- A number before a point that a gap divides from it, and a comment at the end. -/
private def spacedScript : List Char := "a=1 .b#c".toList

/-- The same lexemes with other gaps: a comment in place of a blank, and a blank in place of a
comment. -/
private def commentedScript : List Char := "a=1//x\n.b\t".toList

/-- The two scripts have the same words. -/
theorem tokenize_commentedScript :
    ∃ tokens, tokenize spacedScript = .ok tokens ∧ Relaid spacedScript commentedScript ∧
      ∃ tokens', tokenize commentedScript = .ok tokens' ∧
        tokens'.map Token.word = tokens.map Token.word := by
  have hrelaid : Relaid spacedScript commentedScript := by
    refine ⟨[⟨[], ['a'], .identifier, .ofList ['a']⟩, ⟨[], ['='], .equals, .ofList ['=']⟩,
      ⟨[], ['1'], .number, .ofList ['1']⟩, ⟨[' '], ['.'], .dot, .ofList ['.']⟩,
      ⟨[], ['b'], .identifier, .ofList ['b']⟩], ['#', 'c'],
      [⟨[], ['a'], .identifier, .ofList ['a']⟩, ⟨[], ['='], .equals, .ofList ['=']⟩,
      ⟨[], ['1'], .number, .ofList ['1']⟩, ⟨['/', '/', 'x', '\n'], ['.'], .dot, .ofList ['.']⟩,
      ⟨[], ['b'], .identifier, .ofList ['b']⟩], ['\t'], by decide, ?_, ?_, ?_, ?_, by decide⟩
    · refine .cons_read .nil (by decide) rfl (.cons_read .nil (by decide) rfl
        (.cons_read .nil (by decide) rfl (.cons_read (.blank (by decide) .nil) (by decide) rfl
          (.cons_read .nil (by decide) rfl .nil))))
    · exact @IsGap.comment _ ['#'] ['c'] [] (by decide) (by decide) (.inr ⟨rfl, rfl⟩) .nil
    · have hcomment : IsGap false ['/', '/', 'x', '\n'] :=
        @IsGap.comment _ ['/', '/'] ['x'] ['\n'] (by decide) (by decide) (.inl rfl)
          (.blank (by decide) .nil)
      exact .cons ⟨rfl, rfl, .nil, id⟩ (.cons ⟨rfl, rfl, .nil, id⟩ (.cons ⟨rfl, rfl, .nil, id⟩
        (.cons ⟨rfl, rfl, hcomment, by simp⟩ (.cons ⟨rfl, rfl, .nil, id⟩ .nil))))
    · exact .blank (by decide) .nil
  have hread : (tokenize spacedScript).toOption.isSome = true := by decide +kernel
  obtain ⟨tokens, htokens⟩ := exists_ok_of_isSome hread
  exact ⟨tokens, htokens, hrelaid, tokenize_of_relaid htokens hrelaid⟩

end StackScript
