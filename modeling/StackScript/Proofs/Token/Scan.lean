import Mathlib.Data.List.TakeWhile
import StackScript.Token.Lexer

/-!
# Texts as sequences of lexemes

A text that is put together from lexemes with blanks between them is read back as these lexemes,
provided that no lexeme runs on into what follows it. What is read is described by a relation on the
rest of a text, so that texts are taken apart from the left, one lexeme at a time.

## Main definitions

* `Word`: the kind and the text of a token, without its place.
* `isWord`: whether characters form one identifier, which may start with digits.
* `Lexeme.Begins`: a lexeme at the start of a text.
* `Scan`: a text as blanks and lexemes.
* `Placed`: tokens that follow each other on lines of a text.

## Main results

* `Lexeme.begins_word`, `Lexeme.begins_single`: identifiers, and tokens of one character.
* `TokenStream.ofText_of_scan`: the tokens of a text that is a sequence of lexemes.
-/

namespace StackScript

open Text Number

/-- The kind and the text of a token, without its place. -/
structure Word where
  kind : TokenKind
  value : String
deriving DecidableEq

/-- What a token says, without its place. -/
def Token.word (t : Token) : Word := ⟨t.kind, t.value⟩

/-- Whether characters form one identifier, which may start with digits. -/
def isWord (cs : List Char) : Bool := cs.all isIdentifierPart && cs.any isIdentifierStart

/-! ### Characters -/

theorem isIdentifierStart_iff {c : Char} : isIdentifierStart c = true ↔
    97 ≤ c.toNat ∧ c.toNat ≤ 122 ∨ 65 ≤ c.toNat ∧ c.toNat ≤ 90 ∨ c.toNat = 95 := by
  have hunderscore : c = '_' ↔ c.toNat = 95 := Char.toNat_inj.symm
  simp only [isIdentifierStart, Bool.or_eq_true, Bool.and_eq_true, decide_eq_true_eq, beq_iff_eq,
    Char.le_def, UInt32.le_iff_toNat_le, hunderscore, or_assoc]
  rfl

theorem isDigit_iff {c : Char} : isDigit c = true ↔ 48 ≤ c.toNat ∧ c.toNat ≤ 57 := by
  simp only [isDigit, Bool.and_eq_true, decide_eq_true_eq, Char.le_def, UInt32.le_iff_toNat_le]
  rfl

theorem isIdentifierPart_iff {c : Char} :
    isIdentifierPart c = true ↔ isIdentifierStart c = true ∨ isDigit c = true :=
  Bool.or_eq_true_iff

/-- No digit starts an identifier. -/
theorem isDigit_eq_false_of_isIdentifierStart {c : Char} (h : isIdentifierStart c = true) :
    isDigit c = false := by
  rw [Bool.eq_false_iff]
  intro hd
  rw [isIdentifierStart_iff] at h
  rw [isDigit_iff] at hd
  omega

/-- Identifiers contain no blanks. -/
theorem isBlank_eq_false_of_isIdentifierPart {c : Char} (h : isIdentifierPart c = true) :
    isBlank c = false := by
  rw [isIdentifierPart_iff, isIdentifierStart_iff, isDigit_iff] at h
  simp only [isBlank, Bool.or_eq_false_iff, Bool.and_eq_false_iff, decide_eq_false_iff_not,
    beq_eq_false_iff_ne]
  omega

namespace Lexeme

/-! ### The start of a lexeme -/

theorem pairKind?_eq_some {c d : Char} {kind : TokenKind} (h : pairKind? c d = some kind) :
    c ∈ ['=', '!', '&', '|', ':'] := by
  unfold pairKind? at h
  split at h <;> simp_all

theorem singleKind?_eq_some {c : Char} {kind : TokenKind} (h : singleKind? c = some kind) :
    c ∈ ['=', '(', ')', '{', '}', '[', ']', ',', '.', ':', '!'] := by
  unfold singleKind? at h
  split at h <;> simp_all

/-- A character that starts no token of two characters is read alone. -/
theorem read_cons {c : Char} {text : List Char} (h : ∀ d ∈ text.head?, pairKind? c d = none) :
    read (c :: text) = readOne c text := by
  cases text with
  | nil => rfl
  | cons d text => simp [read, h d rfl]

theorem read_cons_of_notMem {c : Char} {text : List Char} (h : c ∉ ['=', '!', '&', '|', ':']) :
    read (c :: text) = readOne c text := by
  refine read_cons fun d _ => ?_
  cases hk : pairKind? c d with
  | none => rfl
  | some kind => exact absurd (pairKind?_eq_some hk) h

theorem singleKind?_eq_none {c : Char}
    (h : c ∉ ['=', '(', ')', '{', '}', '[', ']', ',', '.', ':', '!']) :
    singleKind? c = none := by
  cases hk : singleKind? c with
  | none => rfl
  | some kind => exact absurd (singleKind?_eq_some hk) h

/-- A part of an identifier is none of some other characters. -/
theorem notMem_of_isIdentifierPart {c : Char} {cs : List Char} (h : isIdentifierPart c = true)
    (hcs : cs.all (fun c => !isIdentifierPart c) = true) : c ∉ cs := by
  intro hmem
  have := List.all_eq_true.1 hcs c hmem
  simp [h] at this

/-- A lexeme at the start of a text: it is read with nothing of what follows, starts no layout and
stands on one line. -/
structure Begins (chars rest : List Char) (w : Word) : Prop where
  read : read (chars ++ rest) = ⟨.ok (w.kind, w.value.toList), chars, rest⟩
  start : splitLayout false (chars ++ rest) = ([], chars ++ rest)
  ne_nil : chars ≠ []
  oneLine : '\n' ∉ chars

/-- A text that starts with neither a blank nor a comment starts with no layout. -/
theorem splitLayout_cons {c : Char} {text : List Char} (hblank : isBlank c = false) (hhash : c ≠ '#')
    (hslash : c ≠ '/') : splitLayout false (c :: text) = ([], c :: text) := by
  simp [splitLayout, hblank, hhash, hslash]

/-! ### Identifiers -/

/-- Characters of a class up to the first one of another class. -/
theorem takeWhile_append_stop {p : Char → Bool} {cs rest : List Char} (h : ∀ c ∈ cs, p c = true)
    (hrest : ∀ c ∈ rest.head?, p c = false) :
    (cs ++ rest).takeWhile p = cs ∧ (cs ++ rest).dropWhile p = rest := by
  rw [List.takeWhile_append_of_pos h, List.dropWhile_append_of_pos h]
  cases rest with
  | nil => simp
  | cons c rest => simp [hrest c rfl]

/-- Digits that run into a letter are no number. -/
private theorem readNumber_letter {whole more rest : List Char} {d : Char}
    (hwhole : ∀ c ∈ whole, isDigit c = true) (hd : isIdentifierStart d = true)
    (hmore : ∀ c ∈ more, isIdentifierPart c = true)
    (hrest : ∀ c ∈ rest.head?, isIdentifierPart c = false) :
    readNumber [] (whole ++ d :: (more ++ rest)) =
      ⟨.ok (.identifier, whole ++ d :: more), whole ++ d :: more, rest⟩ := by
  have hstop : ∀ c ∈ (d :: (more ++ rest)).head?, isDigit c = false := by
    simpa using isDigit_eq_false_of_isIdentifierStart hd
  have hfraction : fraction (d :: (more ++ rest)) = [] := by
    unfold fraction
    split
    next heq =>
      cases heq
      exact absurd hd (by decide)
    · rfl
  have hname : ∀ c ∈ d :: more, isIdentifierPart c = true :=
    List.forall_mem_cons.2 ⟨isIdentifierPart_iff.2 (.inl hd), hmore⟩
  simp only [readNumber, takeWhile_append_stop hwhole hstop, hfraction, List.nil_append,
    List.append_nil, List.length_nil, List.drop_zero, hd, List.isEmpty_nil, Bool.and_self, if_true]
  rw [← List.cons_append]
  simp only [takeWhile_append_stop hname hrest]

/-- Letters and digits that are not all digits form an identifier. -/
theorem begins_word {cs rest : List Char} (h : isWord cs = true)
    (hrest : ∀ c ∈ rest.head?, isIdentifierPart c = false) :
    Begins cs rest ⟨.identifier, String.ofList cs⟩ := by
  simp only [isWord, Bool.and_eq_true, List.all_eq_true, List.any_eq_true] at h
  obtain ⟨hall, start, hstart, hletter⟩ := h
  obtain ⟨c, more, rfl⟩ := List.exists_cons_of_ne_nil (List.ne_nil_of_mem hstart)
  have hc := hall c (by simp)
  have hnl : '\n' ∉ c :: more := fun hmem => absurd (hall _ hmem) (by decide)
  obtain ⟨htake, hdrop⟩ := takeWhile_append_stop hall hrest
  refine ⟨?_, ?_, by simp, hnl⟩
  · have hone : singleKind? c = none :=
      singleKind?_eq_none (notMem_of_isIdentifierPart hc (by decide))
    have hquote : ¬ (c = '"' ∨ c = '\'') := by
      rintro (rfl | rfl) <;> exact absurd hc (by decide)
    rw [List.cons_append, read_cons_of_notMem (notMem_of_isIdentifierPart hc (by decide)), readOne,
      hone]
    simp only [if_neg hquote]
    by_cases hd : isDigit c = true
    · -- The digits at the start end at a letter.
      obtain ⟨whole, d, tail, hsplit, hwhole, hd'⟩ : ∃ whole d tail, c :: more = whole ++ d :: tail ∧
          (∀ c ∈ whole, isDigit c = true) ∧ isDigit d = false := by
        have hne : (c :: more).dropWhile isDigit ≠ [] := by
          rw [Ne, List.dropWhile_eq_nil_iff]
          intro hdigits
          exact absurd (hdigits start hstart)
            (by simp [isDigit_eq_false_of_isIdentifierStart hletter])
        obtain ⟨d, tail, hdrop⟩ := List.exists_cons_of_ne_nil hne
        refine ⟨(c :: more).takeWhile isDigit, d, tail, ?_, ?_, ?_⟩
        · rw [← hdrop, List.takeWhile_append_dropWhile]
        · exact fun c hc => List.mem_takeWhile_imp hc
        · have := List.head_dropWhile_not isDigit hne
          simpa [hdrop] using this
      rw [← List.cons_append, hsplit, if_pos hd, List.append_assoc, List.cons_append,
        readNumber_letter hwhole, String.toList_ofList]
      · exact (isIdentifierPart_iff.1 (hall d (by simp [hsplit]))).resolve_right (by simp [hd'])
      · exact fun c hc => hall c (by simp [hsplit, hc])
      · exact hrest
    · have hminus : ¬ (c = '-' ∧ (more ++ rest).head?.any isDigit = true) := by
        rintro ⟨rfl, -⟩
        exact absurd hc (by decide)
      have hcs : isIdentifierStart c = true := (isIdentifierPart_iff.1 hc).resolve_right hd
      rw [if_neg hd, if_neg hminus, if_pos hcs, ← List.cons_append, htake, hdrop,
        String.toList_ofList]
  · refine splitLayout_cons (isBlank_eq_false_of_isIdentifierPart hc) ?_ ?_ <;>
      (rintro rfl; exact absurd hc (by decide))

/-! ### Signs -/

private theorem start_of_mem {c : Char} {cs : List Char} (h : c ∈ cs)
    (hcs : cs.all (fun c => !isBlank c && c != '#' && c != '/' && c != '\n') = true) :
    isBlank c = false ∧ c ≠ '#' ∧ c ≠ '/' ∧ c ≠ '\n' := by
  simpa [and_assoc] using List.all_eq_true.1 hcs c h

/-- A sign of one character, unless it forms a token with the next one. -/
theorem begins_single {c : Char} {rest : List Char} {kind : TokenKind}
    (hk : singleKind? c = some kind) (hpair : ∀ d ∈ rest.head?, pairKind? c d = none) :
    Begins [c] rest ⟨kind, String.ofList [c]⟩ := by
  obtain ⟨hblank, hhash, hslash, hnl⟩ := start_of_mem (singleKind?_eq_some hk) (by decide)
  refine ⟨?_, splitLayout_cons hblank hhash hslash, by simp, by simpa using Ne.symm hnl⟩
  simp only [List.cons_append, List.nil_append, read_cons hpair, readOne, hk, String.toList_ofList]

/-- A sign of two characters. -/
theorem begins_pair {c d : Char} {rest : List Char} {kind : TokenKind}
    (hk : pairKind? c d = some kind) : Begins [c, d] rest ⟨kind, String.ofList [c, d]⟩ := by
  have hd : d ≠ '\n' := by
    unfold pairKind? at hk
    split at hk <;> simp_all
  obtain ⟨hblank, hhash, hslash, hnl⟩ := start_of_mem (pairKind?_eq_some hk) (by decide)
  refine ⟨?_, splitLayout_cons hblank hhash hslash, by simp, ?_⟩
  · simp only [List.cons_append, List.nil_append, read, hk, String.toList_ofList]
  · simpa using ⟨Ne.symm hnl, Ne.symm hd⟩

end Lexeme

/-! ### Sequences of lexemes -/

/-- A text as a sequence of lexemes with blanks around them. The flag of a lexeme tells whether a
line ends before it. -/
inductive Scan : List Char → List (Bool × Word) → Prop
  | done {gap : List Char} (hg : ∀ c ∈ gap, isBlank c = true) : Scan gap []
  | lexeme {gap chars rest : List Char} {w : Word} {ws : List (Bool × Word)}
      (hg : ∀ c ∈ gap, isBlank c = true) (hb : Lexeme.Begins chars rest w) (hr : Scan rest ws) :
      Scan (gap ++ (chars ++ rest)) ((gap.contains '\n', w) :: ws)

namespace Scan

variable {text rest chars : List Char} {w : Word} {ws : List (Bool × Word)}

/-- A lexeme before others. -/
theorem cons (hb : Lexeme.Begins chars rest w) (hr : Scan rest ws) :
    Scan (chars ++ rest) ((false, w) :: ws) :=
  @Scan.lexeme [] _ _ _ _ (by simp) hb hr

/-- A blank that ends no line is skipped. -/
theorem blank {c : Char} (hc : isBlank c = true) (hnl : c ≠ '\n') (h : Scan text ws) :
    Scan (c :: text) ws := by
  cases h with
  | done hg => exact .done (List.forall_mem_cons.2 ⟨hc, hg⟩)
  | @lexeme gap chars rest w ws hg hb hr =>
    have hcontains : (c :: gap).contains '\n' = gap.contains '\n' := by
      simp [Ne.symm hnl]
    rw [← hcontains, ← List.cons_append]
    exact .lexeme (List.forall_mem_cons.2 ⟨hc, hg⟩) hb hr

/-- The end of a line is noted at the next lexeme. -/
theorem newline (h : Scan text ws) :
    Scan ('\n' :: text) (ws.modifyHead fun w => (true, w.2)) := by
  cases h with
  | done hg => exact .done (List.forall_mem_cons.2 ⟨by decide, hg⟩)
  | @lexeme gap chars rest w ws hg hb hr =>
    have hcontains : ('\n' :: gap).contains '\n' = true := by simp
    rw [List.modifyHead_cons, ← hcontains, ← List.cons_append]
    exact .lexeme (List.forall_mem_cons.2 ⟨by decide, hg⟩) hb hr

end Scan

/-! ### The tokens of a text -/

/-- Tokens that say given words. A token stands on the line before it unless a line ends there. -/
inductive Placed : Nat → List (Bool × Word) → List Token → Prop
  | nil {line : Nat} : Placed line [] []
  | cons {line : Nat} {w : Bool × Word} {t : Token} {ws : List (Bool × Word)} {ts : List Token}
      (hw : t.word = w.2) (hl : line ≤ t.line) (hb : line < t.line ↔ w.1 = true)
      (h : Placed t.line ws ts) : Placed line (w :: ws) (t :: ts)

private theorem Position.line_after (p : Position) (cs : List Char) :
    (p.after cs).line = p.line + cs.count '\n' := by
  induction cs generalizing p with
  | nil => rfl
  | cons c cs ih =>
    rw [Position.after, List.foldl_cons, ← Position.after, ih, List.count_cons]
    by_cases hc : c = '\n'
    · simp [Position.step, hc]
      omega
    · simp [Position.step, hc]

/-- Blanks before a text that starts with no layout are all the layout there is. -/
theorem splitLayout_append {gap text : List Char} (hg : ∀ c ∈ gap, isBlank c = true)
    (ht : splitLayout false text = ([], text)) :
    splitLayout false (gap ++ text) = (gap, text) := by
  induction gap with
  | nil => exact ht
  | cons c gap ih =>
    rw [List.forall_mem_cons] at hg
    simp [splitLayout, hg.1, ih hg.2]

namespace TokenStream

/-- The tokens from a position in a text that is a sequence of lexemes. -/
theorem ofCursor_of_scan {text : List Char} {ws : List (Bool × Word)} (h : Scan text ws)
    {limit : Nat} {p : Position} (hlimit : text.length ≤ limit) :
    ∃ ts eof, ofCursor limit ⟨text, p⟩ = ⟨ts.map .ok, .ok eof⟩ ∧ eof.word = ⟨.eof, ""⟩ ∧
      Placed p.line ws ts := by
  induction h generalizing limit p with
  | @done gap hg =>
    have hskip : splitLayout false gap = (gap, []) := by
      simpa using @splitLayout_append gap [] hg rfl
    refine ⟨[], ⟨.eof, "", (p.after gap).line, (p.after gap).column⟩, ?_, rfl, .nil⟩
    cases limit <;> simp [ofCursor, Cursor.next, Cursor.skipLayout, Cursor.move, hskip, Lexeme.read]
  | @lexeme gap chars rest w ws hg hb _ ih =>
    have hskip := splitLayout_append hg hb.start
    have hchars := List.length_pos_iff.2 hb.ne_nil
    obtain ⟨limit, rfl⟩ : ∃ n, limit = n + 1 := by
      refine ⟨limit - 1, ?_⟩
      simp only [List.length_append] at hlimit
      omega
    obtain ⟨ts, eof, hts, heof, hplaced⟩ :=
      @ih limit ((p.after gap).after chars) (by simp only [List.length_append] at hlimit; omega)
    let t : Token := ⟨w.kind, w.value, (p.after gap).line, (p.after gap).column⟩
    refine ⟨t :: ts, eof, ?_, heof, ?_⟩
    · simp [ofCursor, Cursor.next, Cursor.skipLayout, Cursor.move, hskip, hb.read, hb.ne_nil, hts, t]
    · have hline : ((p.after gap).after chars).line = t.line := by
        rw [Position.line_after _ chars, List.count_eq_zero_of_not_mem hb.oneLine]
        rfl
      have ht : t.line = p.line + gap.count '\n' := Position.line_after p gap
      refine .cons rfl (by omega) ?_ (hline ▸ hplaced)
      rw [ht, List.contains_iff_mem, ← List.count_pos_iff]
      omega

/-- **The tokens of a text that is a sequence of lexemes** are these lexemes, and the end. -/
theorem ofText_of_scan {text : List Char} {ws : List (Bool × Word)} (h : Scan text ws) :
    ∃ ts eof, ofText text = ⟨ts.map .ok, .ok eof⟩ ∧ eof.word = ⟨.eof, ""⟩ ∧ Placed 1 ws ts :=
  ofCursor_of_scan h le_rfl

end TokenStream

end StackScript
