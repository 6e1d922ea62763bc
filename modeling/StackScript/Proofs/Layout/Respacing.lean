import StackScript.Proofs.Grammar.Scripts
import StackScript.Proofs.Layout.Marks
import StackScript.Proofs.Spelling.Words

/-!
# Texts that differ in blanks

Two texts are respaced versions of each other if they differ only in the blanks after an opening
brace or a comma and before a closing brace, where the ends of lines have no meaning. Reading both
from the left, one lexeme at a time, gives the same words: a lexeme ends before the first blank, and
the texts agree up to there.

## Main definitions

* `Layout.Respaced`: texts that differ in such blanks.
* `Layout.SameWords`: sequences of words with lines that end at the same places, but for these.

## Main results

* `Layout.Respaced.sameLexeme_read`: the first lexemes agree.
* `Layout.Respaced.sameTokens`: respaced texts have the same tokens.
-/

namespace StackScript.Layout

open Text Number

/-! ### Respaced texts -/

/-- Texts that differ in blanks after an opening brace or a comma and before a closing brace. The
flag tells whether such a sign stands before the texts. -/
inductive Respaced : Bool → List Char → List Char → Prop
  | nil {free : Bool} : Respaced free [] []
  | blank {free : Bool} {c : Char} {a b : List Char} (hc : isBlank c = true)
      (h : Respaced free a b) : Respaced free (c :: a) (c :: b)
  | code {free : Bool} {c : Char} {a b : List Char} (hc : isBlank c = false)
      (hcode : c ∉ ['\'', '"', '#', '/']) (h : Respaced (c == '{' || c == ',') a b) :
      Respaced free (c :: a) (c :: b)
  | quoted {free : Bool} {a b : List Char} (s : String) (h : Respaced false a b) :
      Respaced free (quoteString s.toList ++ a) (quoteString s.toList ++ b)
  | gap {gap a b : List Char} (hg : ∀ c ∈ gap, isBlank c = true) (h : Respaced true a b) :
      Respaced true (' ' :: a) (gap ++ b)
  | close {free : Bool} {gap a b : List Char} (hg : ∀ c ∈ gap, isBlank c = true) (hne : gap ≠ [])
      (h : Respaced false a b) : Respaced free (' ' :: '}' :: a) (gap ++ '}' :: b)

namespace Respaced

variable {free : Bool} {a b a' b' : List Char}

/-- Texts that may not differ at the start may stand anywhere. -/
theorem anywhere (h : Respaced false a b) (free : Bool) : Respaced free a b := by
  generalize hflag : false = flag at h
  induction h with
  | nil => exact .nil
  | blank hc _ ih => exact .blank hc (ih hflag)
  | code hc hcode h _ => exact .code hc hcode h
  | quoted s h _ => exact .quoted s h
  | gap => cases hflag
  | close hg hne h _ => exact .close hg hne h

/-- Texts in a row. -/
theorem append (h : Respaced free a b) (h' : Respaced false a' b') :
    Respaced free (a ++ a') (b ++ b') := by
  induction h with
  | nil => exact h'.anywhere _
  | blank hc _ ih => exact .blank hc ih
  | code hc hcode _ ih => exact .code hc hcode ih
  | quoted s _ ih =>
    rw [List.append_assoc, List.append_assoc]
    exact .quoted s ih
  | gap hg _ ih =>
    rw [List.append_assoc]
    exact .gap hg ih
  | close hg hne _ ih =>
    rw [List.append_assoc, List.cons_append]
    exact .close hg hne ih

/-- A character other than a blank or a quote is the same in both texts. -/
theorem of_cons {c : Char} {p : List Char} (h : Respaced free (c :: a) p)
    (hc : isBlank c = false) (hquote : c ≠ '\'') :
    ∃ b, p = c :: b ∧ Respaced (c == '{' || c == ',') a b := by
  generalize htext : c :: a = text at h
  cases h with
  | nil => cases htext
  | blank hblank =>
    cases htext
    exact absurd hblank (by simp [hc])
  | code _ _ h =>
    cases htext
    exact ⟨_, rfl, h⟩
  | quoted s _ => exact absurd (List.cons.inj htext).1 hquote
  | gap | close =>
    cases htext
    exact absurd hc (by decide)

/-- The texts start with the same character, or both with a blank. -/
theorem head_cases (h : Respaced false a b) :
    a.head? = b.head? ∨ (∃ c ∈ a.head?, isBlank c = true) ∧ ∃ c ∈ b.head?, isBlank c = true := by
  generalize hflag : false = flag at h
  cases h with
  | nil | blank | code => exact .inl rfl
  | quoted s _ => exact .inl (by simp [quoteString])
  | gap => cases hflag
  | @close _ gap _ _ hg hne _ =>
    obtain ⟨c, gap, rfl⟩ := List.exists_cons_of_ne_nil hne
    exact .inr ⟨⟨' ', rfl, by decide⟩, c, rfl, hg c (by simp)⟩

/-- Runs of characters that are neither blanks nor signs with a meaning of their own agree. -/
theorem takeWhile_eq {q : Char → Bool} (hblank : ∀ c, isBlank c = true → q c = false)
    (hsigns : ∀ c ∈ ['\'', '{', ','], q c = false) (h : Respaced false a b) :
    b.takeWhile q = a.takeWhile q ∧ Respaced false (a.dropWhile q) (b.dropWhile q) := by
  generalize hflag : false = flag at h ⊢
  induction h with
  | nil => exact ⟨rfl, .nil⟩
  | blank hc h _ => simpa [List.takeWhile_cons, List.dropWhile_cons, hblank _ hc] using .blank hc h
  | @code _ c a b hc hcode h ih =>
    cases hq : q c with
    | false => simpa [List.takeWhile_cons, List.dropWhile_cons, hq] using .code hc hcode h
    | true =>
      have hflag' : (c == '{' || c == ',') = false := by
        rw [Bool.or_eq_false_iff, beq_eq_false_iff_ne, beq_eq_false_iff_ne]
        constructor <;> rintro rfl <;> exact absurd hq (by simp [hsigns])
      obtain ⟨htake, hdrop⟩ := ih hflag'.symm
      rw [hflag'] at hdrop
      subst hflag
      simpa [List.takeWhile_cons, List.dropWhile_cons, hq, htake] using hdrop
  | @quoted _ a b s h _ =>
    have hq : q '\'' = false := hsigns '\'' (by simp)
    have htake (cs : List Char) : (quoteString s.toList ++ cs).takeWhile q = [] := by
      simp [quoteString, hq]
    have hdrop (cs : List Char) :
        (quoteString s.toList ++ cs).dropWhile q = quoteString s.toList ++ cs := by
      simp [quoteString, hq]
    rw [htake, htake, hdrop, hdrop]
    exact ⟨rfl, .quoted s h⟩
  | gap => cases hflag
  | @close _ gap a b hg hne h _ =>
    obtain ⟨c, gap, rfl⟩ := List.exists_cons_of_ne_nil hne
    have hspace : q ' ' = false := hblank ' ' (by decide)
    have hc : q c = false := hblank c (hg c (by simp))
    simpa [List.takeWhile_cons, List.dropWhile_cons, hspace, hc] using .close hg hne h

end Respaced

/-! ### The first lexemes of respaced texts -/

/-- Lexemes that say the same and stand on one line, before respaced texts. -/
structure SameLexeme (l l' : Lexeme) : Prop where
  result : l'.result = l.result
  passed : l'.passed = l.passed
  oneLine : '\n' ∉ l.passed
  rest : ∀ kind value, l.result = .ok (kind, value) →
    Respaced ([TokenKind.lbrace, .comma].contains kind) l.rest l'.rest

namespace Respaced

variable {free : Bool} {a b : List Char}

private theorem isDigit_eq_false_of_isBlank {c : Char} (h : isBlank c = true) :
    isDigit c = false := by
  rw [Bool.eq_false_iff]
  intro hd
  rw [isBlank_eq_false_of_isIdentifierPart (isIdentifierPart_iff.2 (.inr hd))] at h
  cases h

private theorem isIdentifierPart_eq_false_of_isBlank {c : Char} (h : isBlank c = true) :
    isIdentifierPart c = false := by
  rw [Bool.eq_false_iff]
  intro hp
  rw [isBlank_eq_false_of_isIdentifierPart hp] at h
  cases h

private theorem digits (h : Respaced false a b) :
    b.takeWhile isDigit = a.takeWhile isDigit ∧
      Respaced false (a.dropWhile isDigit) (b.dropWhile isDigit) :=
  h.takeWhile_eq (fun _ => isDigit_eq_false_of_isBlank) (by simp; decide)

private theorem letters (h : Respaced false a b) :
    b.takeWhile isIdentifierPart = a.takeWhile isIdentifierPart ∧
      Respaced false (a.dropWhile isIdentifierPart) (b.dropWhile isIdentifierPart) :=
  h.takeWhile_eq (fun _ => isIdentifierPart_eq_false_of_isBlank) (by simp; decide)

/-- A character with a property that no blank has starts both texts or none. -/
private theorem head_iff {q : Char → Prop} (h : Respaced false a b)
    (hq : ∀ c, isBlank c = true → ¬ q c) : (∃ c ∈ b.head?, q c) ↔ ∃ c ∈ a.head?, q c := by
  rcases h.head_cases with heq | ⟨⟨c, hc, hcb⟩, d, hd, hdb⟩
  · rw [heq]
  · refine iff_of_false ?_ ?_
    · rintro ⟨d', hd', hqd⟩
      cases hd.symm.trans hd'
      exact hq d hdb hqd
    · rintro ⟨c', hc', hqc⟩
      cases hc.symm.trans hc'
      exact hq c hcb hqc

private theorem fraction_eq_nil (h : ¬ ∃ c ∈ a.head?, c = '.') : Lexeme.fraction a = [] := by
  unfold Lexeme.fraction
  split
  · exact absurd ⟨'.', rfl, rfl⟩ h
  · rfl

private theorem fraction_cases (text : List Char) : Lexeme.fraction ('.' :: text) = [] ∨
    Lexeme.fraction ('.' :: text) = '.' :: text.takeWhile isDigit := by
  cases hdigits : text.takeWhile isDigit with
  | nil => exact .inl (by simp [Lexeme.fraction, hdigits])
  | cons d digits => exact .inr (by simp [Lexeme.fraction, hdigits])

/-- The fractions that start the texts agree. -/
private theorem fraction_eq (h : Respaced false a b) :
    Lexeme.fraction b = Lexeme.fraction a ∧
      Respaced false (a.drop (Lexeme.fraction a).length) (b.drop (Lexeme.fraction a).length) := by
  have hhead := @head_iff _ _ (· = '.') h (by rintro c hc rfl; exact absurd hc (by decide))
  by_cases hpoint : ∃ c ∈ a.head?, c = '.'
  · obtain ⟨c, hc, rfl⟩ := hpoint
    obtain ⟨a, rfl⟩ := List.head?_eq_some_iff.1 hc
    obtain ⟨b, rfl, hmore⟩ := h.of_cons (by decide) (by decide)
    obtain ⟨htake, hdrop⟩ := digits hmore
    have heq : Lexeme.fraction ('.' :: b) = Lexeme.fraction ('.' :: a) := by
      unfold Lexeme.fraction
      simp only [htake]
    refine ⟨heq, ?_⟩
    rcases fraction_cases a with hf | hf
    · rw [hf]
      exact h
    · have hlength (text : List Char) : ('.' :: text).drop ('.' :: text.takeWhile isDigit).length =
          text.dropWhile isDigit := by
        have hdrop := @List.drop_left _ (text.takeWhile isDigit) (text.dropWhile isDigit)
        rwa [List.takeWhile_append_dropWhile] at hdrop
      rw [hf, hlength, ← htake, hlength]
      exact hdrop
  · rw [fraction_eq_nil hpoint, fraction_eq_nil (mt hhead.1 hpoint)]
    exact ⟨rfl, h⟩

private theorem newline_notMem_takeWhile {q : Char → Bool} (hq : q '\n' = false)
    (text : List Char) : '\n' ∉ text.takeWhile q := fun hmem => by
  rw [List.mem_takeWhile_imp hmem] at hq
  cases hq

/-- The lexeme of a number with given characters: an identifier if letters follow and the number is
plain digits, a fault if letters follow otherwise. -/
private def numberLexeme (plain : Bool) (passed rest : List Char) : Lexeme :=
  match rest with
  | c :: _ =>
    if isIdentifierStart c then
      if plain then
        let name := passed ++ rest.takeWhile isIdentifierPart
        ⟨.ok (.identifier, name), name, rest.dropWhile isIdentifierPart⟩
      else ⟨.error (.malformedNumber (String.ofList (passed ++ [c]))), passed, rest⟩
    else ⟨.ok (.number, passed), passed, rest⟩
  | [] => ⟨.ok (.number, passed), passed, rest⟩

private theorem numberLexeme_of_not_start {plain : Bool} {passed rest : List Char}
    (h : ¬ ∃ c ∈ rest.head?, isIdentifierStart c = true) :
    numberLexeme plain passed rest = ⟨.ok (.number, passed), passed, rest⟩ := by
  cases rest with
  | nil => rfl
  | cons c rest => exact if_neg fun hc => h ⟨c, rfl, hc⟩

private theorem sameLexeme_numberLexeme {plain : Bool} {passed : List Char}
    (hpassed : '\n' ∉ passed) (h : Respaced false a b) :
    SameLexeme (numberLexeme plain passed a) (numberLexeme plain passed b) := by
  have hhead := @head_iff _ _ (isIdentifierStart · = true) h fun c hc hstart => by
    have := isIdentifierPart_eq_false_of_isBlank hc
    rw [isIdentifierPart_iff.2 (.inl hstart)] at this
    cases this
  by_cases hstart : ∃ c ∈ a.head?, isIdentifierStart c = true
  · obtain ⟨htake, hdrop⟩ := letters h
    obtain ⟨c, hc, hstart⟩ := hstart
    obtain ⟨a, rfl⟩ := List.head?_eq_some_iff.1 hc
    have hpart := isIdentifierPart_iff.2 (.inl hstart)
    obtain ⟨b, rfl, -⟩ := h.of_cons (isBlank_eq_false_of_isIdentifierPart hpart)
      (by rintro rfl; exact absurd hpart (by decide))
    simp only [numberLexeme, hstart, if_true, htake]
    split_ifs
    · refine ⟨rfl, rfl, ?_, fun kind value heq => ?_⟩
      · rw [List.mem_append, not_or]
        exact ⟨hpassed, newline_notMem_takeWhile (by decide) _⟩
      · cases heq
        exact hdrop
    · exact ⟨rfl, rfl, hpassed, fun kind value heq => nomatch heq⟩
  · rw [numberLexeme_of_not_start hstart, numberLexeme_of_not_start (mt hhead.1 hstart)]
    refine ⟨rfl, rfl, hpassed, fun kind value heq => ?_⟩
    cases heq
    exact h

/-- Numbers, and identifiers that start with digits. -/
private theorem sameLexeme_readNumber {sign : List Char} (hsign : '\n' ∉ sign)
    (h : Respaced false a b) :
    SameLexeme (Lexeme.readNumber sign a) (Lexeme.readNumber sign b) := by
  obtain ⟨hwhole, htail⟩ := digits h
  obtain ⟨hfraction, hrest⟩ := fraction_eq htail
  have hpassed : '\n' ∉ sign ++ a.takeWhile isDigit ++ Lexeme.fraction (a.dropWhile isDigit) := by
    simp only [List.mem_append, not_or]
    refine ⟨⟨hsign, newline_notMem_takeWhile (by decide) _⟩, ?_⟩
    by_cases hpoint : ∃ c ∈ (a.dropWhile isDigit).head?, c = '.'
    · obtain ⟨c, hc, rfl⟩ := hpoint
      obtain ⟨more, hmore⟩ := List.head?_eq_some_iff.1 hc
      rw [hmore]
      rcases fraction_cases more with hf | hf
      · simp [hf]
      · rw [hf, List.mem_cons, not_or]
        exact ⟨by decide, newline_notMem_takeWhile (by decide) _⟩
    · simp [fraction_eq_nil hpoint]
  have hread (text : List Char) : Lexeme.readNumber sign text =
      numberLexeme (sign.isEmpty && (Lexeme.fraction (text.dropWhile isDigit)).isEmpty)
        (sign ++ text.takeWhile isDigit ++ Lexeme.fraction (text.dropWhile isDigit))
        ((text.dropWhile isDigit).drop (Lexeme.fraction (text.dropWhile isDigit)).length) := rfl
  rw [hread, hread, hwhole, hfraction]
  exact sameLexeme_numberLexeme hpassed hrest

/-- The lexemes that start with a given character, where no token of two characters does. -/
private theorem sameLexeme_readOne {c : Char} (hc : isBlank c = false)
    (hcode : c ∉ ['\'', '"', '#', '/']) (h : Respaced (c == '{' || c == ',') a b) :
    SameLexeme (Lexeme.readOne c a) (Lexeme.readOne c b) := by
  have hnewline : c ≠ '\n' := by rintro rfl; exact absurd hc (by decide)
  unfold Lexeme.readOne
  cases hsingle : Lexeme.singleKind? c with
  | some kind =>
    refine ⟨rfl, rfl, by simpa using hnewline.symm, fun kind' value heq => ?_⟩
    cases heq
    have hflag : (c == '{' || c == ',') = [TokenKind.lbrace, .comma].contains kind := by
      unfold Lexeme.singleKind? at hsingle
      split at hsingle <;> cases hsingle <;> rfl
    rwa [← hflag]
  | none =>
    have hflag : (c == '{' || c == ',') = false := by
      rw [Bool.or_eq_false_iff, beq_eq_false_iff_ne, beq_eq_false_iff_ne]
      constructor <;> rintro rfl <;> cases hsingle
    have hfull : Respaced false (c :: a) (c :: b) := .code hc hcode h
    rw [hflag] at h
    have hquote : ¬ (c = '"' ∨ c = '\'') := by
      simp only [List.mem_cons, not_or] at hcode
      tauto
    have hdigit := @head_iff _ _ (isDigit · = true) h fun d hd => by
      simp [isDigit_eq_false_of_isBlank hd]
    have hminus : (c = '-' ∧ b.head?.any isDigit = true) ↔
        c = '-' ∧ a.head?.any isDigit = true := by
      simpa [Option.any_eq_true] using fun _ => hdigit
    simp only [if_neg hquote, hminus]
    split_ifs
    · exact sameLexeme_readNumber (by simp) hfull
    · exact sameLexeme_readNumber (by decide) h
    · obtain ⟨htake, hdrop⟩ := letters hfull
      refine ⟨by rw [htake], by rw [htake], newline_notMem_takeWhile (by decide) _,
        fun kind value heq => ?_⟩
      cases heq
      exact hdrop
    all_goals exact ⟨rfl, rfl, by simp, fun kind value heq => nomatch heq⟩

private theorem pairKind?_cases {c d : Char} {kind : TokenKind}
    (h : Lexeme.pairKind? c d = some kind) :
    d ∈ ['=', '&', '|', ':'] ∧ [TokenKind.lbrace, .comma].contains kind = false := by
  unfold Lexeme.pairKind? at h
  split at h <;> cases h <;> decide

/-- The first lexemes of texts that start with the same character of code. -/
theorem sameLexeme_read {c : Char} (hc : isBlank c = false) (hcode : c ∉ ['\'', '"', '#', '/'])
    (h : Respaced (c == '{' || c == ',') a b) :
    SameLexeme (Lexeme.read (c :: a)) (Lexeme.read (c :: b)) := by
  have hblank (d : Char) (hd : isBlank d = true) : Lexeme.pairKind? c d = none := by
    cases hpair : Lexeme.pairKind? c d with
    | none => rfl
    | some kind =>
      have hall : ['=', '&', '|', ':'].all (!isBlank ·) = true := by decide
      have := List.all_eq_true.1 hall d (pairKind?_cases hpair).1
      simp [hd] at this
  by_cases hpair : ∃ d ∈ a.head?, Lexeme.pairKind? c d ≠ none
  · obtain ⟨d, hd, hne⟩ := hpair
    obtain ⟨kind, hkind⟩ := Option.ne_none_iff_exists'.1 hne
    obtain ⟨a, rfl⟩ := List.head?_eq_some_iff.1 hd
    obtain ⟨hmem, hflag⟩ := pairKind?_cases hkind
    have hsigns : ∀ d ∈ ['=', '&', '|', ':'], isBlank d = false ∧ d ≠ '\'' ∧ d ≠ '\n' ∧
        (d == '{' || d == ',') = false := forall_mem_of_all (by decide)
    obtain ⟨hd, hquote, hnewline, hfree⟩ := hsigns d hmem
    obtain ⟨b, rfl, hmore⟩ := h.of_cons hd hquote
    simp only [Lexeme.read, hkind]
    refine ⟨rfl, rfl, ?_, fun kind' value heq => ?_⟩
    · have : c ≠ '\n' := by rintro rfl; exact absurd hc (by decide)
      simp [this.symm, hnewline.symm]
    · cases heq
      rwa [hflag, ← hfree]
  · have hnone : ∀ d ∈ a.head?, Lexeme.pairKind? c d = none := fun d hd =>
      Decidable.byContradiction fun hne => hpair ⟨d, hd, hne⟩
    have hnone' : ∀ d ∈ b.head?, Lexeme.pairKind? c d = none := by
      cases hflag : (c == '{' || c == ',') with
      | false =>
        rw [hflag] at h
        have hhead := @head_iff _ _ (Lexeme.pairKind? c · ≠ none) h
          fun d hd hne => hne (hblank d hd)
        exact fun d hd => Decidable.byContradiction fun hne => hpair (hhead.1 ⟨d, hd, hne⟩)
      | true =>
        intro d _
        cases hkind : Lexeme.pairKind? c d with
        | none => rfl
        | some kind =>
          have hmem := Lexeme.pairKind?_eq_some hkind
          rcases Bool.or_eq_true_iff.1 hflag with heq | heq <;> rw [beq_iff_eq.1 heq] at hmem <;>
            exact absurd hmem (by decide)
    rw [Lexeme.read_cons hnone, Lexeme.read_cons hnone']
    exact sameLexeme_readOne hc hcode h

end Respaced

/-! ### Words of respaced texts -/

/-- The same words, with lines that end at the same places, except after an opening brace or a comma
and before a closing brace. The flag tells whether such a sign stands before the words. -/
inductive SameWords : Bool → List (Bool × Word) → List (Bool × Word) → Prop
  | nil {free : Bool} : SameWords free [] []
  | cons {free ended ended' : Bool} {w : Word} {vs vs' : List (Bool × Word)}
      (hends : ended = ended' ∨ free = true ∨ w.kind = .rbrace)
      (h : SameWords ([TokenKind.lbrace, .comma].contains w.kind) vs vs') :
      SameWords free ((ended, w) :: vs) ((ended', w) :: vs')

/-- Texts that start with the same lexeme, or have ended. -/
inductive Solid : List Char → List Char → Prop
  | nil : Solid [] []
  | code {c : Char} {a b : List Char} (hc : isBlank c = false)
      (hcode : c ∉ ['\'', '"', '#', '/']) (h : Respaced (c == '{' || c == ',') a b) :
      Solid (c :: a) (c :: b)
  | quoted {a b : List Char} (s : String) (h : Respaced false a b) :
      Solid (quoteString s.toList ++ a) (quoteString s.toList ++ b)

/-- The blanks before the first lexeme, which hold ends of lines in both texts or in none, unless
they may differ. -/
theorem Respaced.exists_solid {free : Bool} {a b : List Char} (h : Respaced free a b) :
    ∃ gap gap' r r', a = gap ++ r ∧ b = gap' ++ r' ∧ (∀ c ∈ gap, isBlank c = true) ∧
      (∀ c ∈ gap', isBlank c = true) ∧ Solid r r' ∧
      (gap.contains '\n' = gap'.contains '\n' ∨ free = true ∨ ∃ more, r = '}' :: more) := by
  induction h with
  | nil => exact ⟨[], [], [], [], rfl, rfl, by simp, by simp, .nil, .inl rfl⟩
  | @blank _ c a b hc _ ih =>
    obtain ⟨gap, gap', r, r', rfl, rfl, hg, hg', hsolid, hends⟩ := ih
    refine ⟨c :: gap, c :: gap', r, r', rfl, rfl, List.forall_mem_cons.2 ⟨hc, hg⟩,
      List.forall_mem_cons.2 ⟨hc, hg'⟩, hsolid, hends.imp_left fun heq => ?_⟩
    rw [List.contains_cons, List.contains_cons, heq]
  | code hc hcode h _ =>
    exact ⟨[], [], _, _, rfl, rfl, by simp, by simp, .code hc hcode h, .inl rfl⟩
  | quoted s h _ => exact ⟨[], [], _, _, rfl, rfl, by simp, by simp, .quoted s h, .inl rfl⟩
  | @gap gap a b hgap _ ih =>
    obtain ⟨gap₁, gap₂, r, r', rfl, rfl, hg, hg', hsolid, -⟩ := ih
    exact ⟨' ' :: gap₁, gap ++ gap₂, r, r', rfl, by rw [List.append_assoc],
      List.forall_mem_cons.2 ⟨by decide, hg⟩, List.forall_mem_append.2 ⟨hgap, hg'⟩, hsolid,
      .inr (.inl rfl)⟩
  | @close _ gap a b hgap _ h _ =>
    exact ⟨[' '], gap, '}' :: a, '}' :: b, rfl, rfl, by simp; decide, hgap,
      .code (by decide) (by decide) h, .inr (.inr ⟨a, rfl⟩)⟩

/-- A text without faults starts with a lexeme, and has no faults after it. -/
private theorem exists_of_ofCursor {gap r : List Char} (hg : ∀ c ∈ gap, isBlank c = true)
    (hr : r ≠ []) (hstart : splitLayout false r = ([], r)) {limit : Nat} {p : Position}
    {ts : List Token} {eof : Token}
    (h : TokenStream.ofCursor (limit + 1) ⟨gap ++ r, p⟩ = ⟨ts.map .ok, .ok eof⟩) :
    ∃ kind value, (Lexeme.read r).result = .ok (kind, value) ∧ (Lexeme.read r).passed ≠ [] ∧
      ∃ (p' : Position) (ts' : List Token),
        TokenStream.ofCursor limit ⟨(Lexeme.read r).rest, p'⟩ = ⟨ts'.map .ok, .ok eof⟩ := by
  simp only [TokenStream.ofCursor, Cursor.next, Cursor.skipLayout, Cursor.move,
    splitLayout_append hg hstart] at h
  cases hresult : (Lexeme.read r).result with
  | error fault =>
    simp only [hresult] at h
    split_ifs at h
    · cases congrArg TokenStream.last h
    · have hitems := congrArg TokenStream.items h
      cases ts with
      | nil => cases hitems
      | cons t ts => cases (List.cons.inj hitems).1
  | ok found =>
    obtain ⟨kind, value⟩ := found
    have hne := (Lexeme.isLexeme_and_stops_of_read hr hresult).1.ne_nil
    simp only [hresult, List.isEmpty_iff, if_neg hne] at h
    refine ⟨kind, value, rfl, hne, (p.after gap).after (Lexeme.read r).passed, ts.tail, ?_⟩
    have hitems := congrArg TokenStream.items h
    have hlast := congrArg TokenStream.last h
    cases ts with
    | nil => cases hitems
    | cons t ts =>
      refine (TokenStream.mk.injEq ..).mpr ?_
      exact ⟨(List.cons.inj hitems).2, hlast⟩

private theorem Solid.eq_nil {r : List Char} (h : Solid [] r) : r = [] := by
  generalize htext : [] = text at h
  cases h with
  | nil => rfl
  | code => cases htext
  | quoted s _ => simp [quoteString] at htext

/-- Respaced texts consist of the same words if one of them has no faults. -/
theorem Respaced.exists_scan {limit : Nat} {free : Bool} {a b : List Char} (h : Respaced free a b)
    (hlimit : a.length ≤ limit) {p : Position} {ts : List Token} {eof : Token}
    (htokens : TokenStream.ofCursor limit ⟨a, p⟩ = ⟨ts.map .ok, .ok eof⟩) :
    ∃ vs vs', Scan a vs ∧ Scan b vs' ∧ SameWords free vs vs' := by
  induction limit generalizing free a b p ts with
  | zero =>
    obtain rfl : a = [] := List.eq_nil_of_length_eq_zero (Nat.le_zero.1 hlimit)
    obtain ⟨gap, gap', r, r', hgap, rfl, hg, hg', hsolid, -⟩ := h.exists_solid
    obtain ⟨rfl, rfl⟩ := List.append_eq_nil_iff.1 hgap.symm
    rw [hsolid.eq_nil, List.append_nil]
    exact ⟨[], [], .done (by simp), .done hg', .nil⟩
  | succ limit ih =>
    obtain ⟨gap, gap', r, r', rfl, rfl, hg, hg', hsolid, hends⟩ := h.exists_solid
    cases hsolid with
    | nil =>
      rw [List.append_nil, List.append_nil]
      exact ⟨[], [], .done hg, .done hg', .nil⟩
    | @code c a b hc hcode hmore =>
      have hsame := hmore.sameLexeme_read hc hcode
      have hstart (text : List Char) : splitLayout false (c :: text) = ([], c :: text) :=
        Lexeme.splitLayout_cons hc (by rintro rfl; simp at hcode) (by rintro rfl; simp at hcode)
      obtain ⟨kind, value, hresult, hne, p', ts', hrest⟩ :=
        exists_of_ofCursor hg (by simp) (hstart a) htokens
      have hlength : (Lexeme.read (c :: a)).rest.length ≤ limit := by
        have := congrArg List.length (Lexeme.append_read (c :: a))
        have hpos := List.length_pos_iff.2 hne
        simp only [List.length_append] at this hlimit
        omega
      obtain ⟨vs, vs', hvs, hvs', hwords⟩ := ih (hsame.rest kind value hresult) hlength hrest
      have hbegins {text : List Char}
          (hresult : (Lexeme.read (c :: text)).result = .ok (kind, value))
          (hpassed : (Lexeme.read (c :: text)).passed = (Lexeme.read (c :: a)).passed) :
          Lexeme.Begins (Lexeme.read (c :: text)).passed (Lexeme.read (c :: text)).rest
            ⟨kind, String.ofList value⟩ := by
        refine ⟨?_, ?_, hpassed ▸ hne, hpassed ▸ hsame.oneLine⟩
        · rw [Lexeme.append_read, String.toList_ofList, ← hresult]
        · rw [Lexeme.append_read, hstart]
      have hscan := Scan.lexeme hg (hbegins hresult rfl) hvs
      have hscan' := Scan.lexeme hg' (hbegins (hsame.result.trans hresult) hsame.passed) hvs'
      rw [Lexeme.append_read] at hscan
      rw [Lexeme.append_read] at hscan'
      refine ⟨_, _, hscan, hscan', .cons (hends.imp_right (Or.imp_right ?_)) hwords⟩
      rintro ⟨more, hbrace⟩
      cases hbrace
      rw [Lexeme.read_cons_of_notMem (by decide)] at hresult
      cases hresult
      rfl
    | @quoted a b s hmore =>
      have hbegins (text : List Char) := Lexeme.begins_string s text
      have hread : Lexeme.read (quoteString s.toList ++ a) =
          ⟨.ok (.string, s.toList), quoteString s.toList, a⟩ := (hbegins a).read
      obtain ⟨kind, value, -, hne, p', ts', hrest⟩ :=
        exists_of_ofCursor hg (by simp [quoteString]) (hbegins a).start htokens
      rw [hread] at hrest
      have hlength : a.length ≤ limit := by
        have hpos := List.length_pos_iff.2 (hbegins a).ne_nil
        simp only [List.length_append] at hlimit
        omega
      obtain ⟨vs, vs', hvs, hvs', hwords⟩ := ih hmore hlength hrest
      refine ⟨_, _, .lexeme hg (hbegins a) hvs, .lexeme hg' (hbegins b) hvs', .cons ?_ hwords⟩
      refine hends.imp_right (Or.imp_right ?_)
      rintro ⟨more, hbrace⟩
      simp [quoteString] at hbrace

/-- The same words on lines are said by tokens that agree. -/
theorem SameWords.aligned {free : Bool} {vs vs' : List (Bool × Word)} (h : SameWords free vs vs')
    {a a' : Token} {ts ts' : List Token} (hts : Placed a.line vs ts) (hts' : Placed a'.line vs' ts')
    (hfree : free = true → [TokenKind.lbrace, .comma].contains a.kind = true) :
    Aligned a a' ts ts' ∧ ts'.map Token.word = ts.map Token.word := by
  induction h generalizing a a' ts ts' with
  | nil =>
    cases hts
    cases hts'
    exact ⟨.nil, rfl⟩
  | @cons free ended ended' w vs vs' hends _ ih =>
    cases hts with
    | @cons _ _ t _ ts hw hl hb hmore =>
      cases hts' with
      | @cons _ _ t' _ ts' hw' hl' hb' hmore' =>
        have hkind : t.kind = w.kind := congrArg Word.kind hw
        obtain ⟨haligned, hwords⟩ := ih hmore hmore' fun h => by rw [hkind]; exact h
        refine ⟨.cons (hw'.trans hw.symm) ?_ haligned, ?_⟩
        · rcases hends with rfl | hends | hends
          · refine .inr (.inr ?_)
            rw [← not_iff_not, ← Ne, ← Ne, ← hl.lt_iff_ne, ← hl'.lt_iff_ne, hb, hb']
          · exact .inl (hfree hends)
          · exact .inr (.inl (by rw [hkind, hends]; rfl))
        · rw [List.map_cons, List.map_cons, hwords, hw, hw']

/-- **Respaced texts have the same tokens** if one of them has no faults. -/
theorem Respaced.sameTokens {a b : List Char} (h : Respaced false a b) {ts : List Token}
    {eof : Token} (htokens : TokenStream.ofText a = ⟨ts.map .ok, .ok eof⟩) :
    SameTokens a b ∧ ∃ ts' eof', TokenStream.ofText b = ⟨ts'.map .ok, .ok eof'⟩ ∧
      (ts' ++ [eof']).map Token.word = (ts ++ [eof]).map Token.word := by
  obtain ⟨vs, vs', hvs, hvs', hwords⟩ := h.exists_scan le_rfl htokens
  obtain ⟨us, last, htext, hlast, hplaced⟩ := TokenStream.ofText_of_scan hvs
  obtain ⟨us', last', htext', hlast', hplaced'⟩ := TokenStream.ofText_of_scan hvs'
  let start : Token := ⟨.eof, "", 1, 0⟩
  obtain ⟨haligned, hsame⟩ :=
    @SameWords.aligned _ _ _ hwords start start _ _ hplaced hplaced' (by simp)
  have hends : last'.word = last.word := hlast'.trans hlast.symm
  refine ⟨⟨htext, htext', haligned, hends⟩, us', last', htext', ?_⟩
  rw [htext] at htokens
  obtain rfl : us = ts := by
    have := congrArg TokenStream.items htokens
    exact List.map_injective_iff.2 (fun _ _ h => Except.ok.inj h) this
  cases congrArg TokenStream.last htokens
  rw [List.map_append, List.map_append, hsame, List.map_singleton, List.map_singleton, hends]

end StackScript.Layout
