import Mathlib.Data.List.Infix
import StackScript.Proofs.Token.Scan

/-!
# Gaps and lexemes

What may stand between two lexemes, and which characters form a lexeme of a kind, said without
reading anything. A lexeme is read where no longer start of the text would be one as well. Whether
that is so shows in the first two characters after it, which are all that reading looks at.

## Main definitions

* `IsGap`: blanks and comments.
* `Escaped`, `IsNumeral`: the characters of a string between its quotes, and those of a number.
* `IsLexeme`: the characters of a lexeme of a kind, with the text that it stands for.
* `EndsBefore`: a lexeme that nothing of what follows continues.
* `Lexeme.Stops`: the same, told by the first two characters that follow.

## Main results

* `splitLayout_eq_iff`: the layout before a text is a gap that no other layout follows.
* `Lexeme.read_eq_iff`: what is read is a lexeme that ends before the rest.
-/

namespace StackScript

open Text Number

/-! ### Gaps -/

/-- What stands between lexemes: blanks and comments. A comment starts with `#` or `//` and runs up
to the end of its line, or up to the end of the text if the gap stands there. -/
inductive IsGap (atEnd : Bool) : List Char → Prop
  | nil : IsGap atEnd []
  | blank {c : Char} {gap : List Char} (hc : isBlank c = true) (h : IsGap atEnd gap) :
      IsGap atEnd (c :: gap)
  | comment {opening body gap : List Char} (ho : opening ∈ [['#'], ['/', '/']]) (hb : '\n' ∉ body)
      (he : gap.head? = some '\n' ∨ gap = [] ∧ atEnd = true) (h : IsGap atEnd gap) :
      IsGap atEnd (opening ++ (body ++ gap))

/-- A comment is skipped up to the end of its line. -/
private theorem splitLayout_comment {body rest : List Char} (hb : '\n' ∉ body)
    (hr : rest.head? = some '\n' ∨ rest = []) :
    splitLayout true (body ++ rest) =
      (body ++ (splitLayout false rest).1, (splitLayout false rest).2) := by
  induction body with
  | nil =>
    rcases hr with hr | rfl
    · obtain ⟨rest, rfl⟩ := List.head?_eq_some_iff.1 hr
      have hblank : isBlank '\n' = true := by decide
      simp [splitLayout, hblank]
    · rfl
  | cons c body ih =>
    rw [List.mem_cons, not_or] at hb
    have hc : (c != '\n') = true := by simpa using Ne.symm hb.1
    simp only [List.cons_append, splitLayout, if_true, hc, ih hb.2]

/-- A gap before a text that starts with no layout is all the layout there is. -/
theorem IsGap.splitLayout_append {atEnd : Bool} {gap text : List Char} (h : IsGap atEnd gap)
    (hend : atEnd = true → text = []) (ht : splitLayout false text = ([], text)) :
    splitLayout false (gap ++ text) = (gap, text) := by
  induction h with
  | nil => exact ht
  | blank hc _ ih => simp [splitLayout, hc, ih]
  | @comment opening body gap ho hb he _ ih =>
    have hstop : (gap ++ text).head? = some '\n' ∨ gap ++ text = [] := by
      rcases he with he | ⟨rfl, he⟩
      · rw [List.head?_append, he]
        exact .inl rfl
      · exact .inr (hend he)
    have hhash : isBlank '#' = false := by decide
    have hslash : isBlank '/' = false := by decide
    have hbody := splitLayout_comment hb hstop
    rw [ih] at hbody
    simp only [List.mem_cons, List.not_mem_nil, or_false] at ho
    rcases ho with rfl | rfl
    · simp [splitLayout, hhash, hbody]
    · have hsecond : '\n' ∉ '/' :: body := List.not_mem_cons_of_ne_of_not_mem (by decide) hb
      replace hsecond := splitLayout_comment hsecond hstop
      rw [ih] at hsecond
      simpa [splitLayout, hslash] using hsecond

/-- The layout that is split off is a gap, also if it starts inside a comment. -/
private theorem isGap_splitLayout_aux (text : List Char) :
    IsGap (splitLayout false text).2.isEmpty (splitLayout false text).1 ∧
      ∃ body gap, (splitLayout true text).1 = body ++ gap ∧ '\n' ∉ body ∧
        IsGap (splitLayout true text).2.isEmpty gap ∧
        (gap.head? = some '\n' ∨ gap = [] ∧ (splitLayout true text).2.isEmpty = true) := by
  induction text with
  | nil => exact ⟨.nil, [], [], rfl, by simp, .nil, .inr ⟨rfl, rfl⟩⟩
  | cons c text ih =>
    obtain ⟨hgap, body, gap, hsplit, hbody, hinside, hend⟩ := ih
    constructor
    · simp only [splitLayout, Bool.false_eq_true, if_false]
      split_ifs with hblank hopens
      · exact .blank hblank hgap
      · dsimp only
        rw [hsplit]
        rcases hopens with rfl | ⟨rfl, hslash⟩
        · exact @IsGap.comment _ ['#'] _ _ (by simp) hbody hend hinside
        · -- The second slash belongs to what is skipped as the inside of the comment.
          obtain ⟨text, rfl⟩ := List.head?_eq_some_iff.1 hslash
          have hfirst : (body ++ gap).head? = some '/' := by
            rw [← hsplit]
            rfl
          cases body with
          | nil =>
            rw [List.nil_append] at hfirst
            rcases hend with hend | ⟨rfl, -⟩
            · exact absurd (hfirst.symm.trans hend) (by decide)
            · cases hfirst
          | cons d body =>
            obtain rfl : d = '/' := Option.some.inj hfirst
            exact @IsGap.comment _ ['/', '/'] body gap (by simp)
              (fun hmem => hbody (List.mem_cons_of_mem _ hmem)) hend hinside
      · exact .nil
    · simp only [splitLayout, if_true]
      by_cases hc : c = '\n'
      · subst hc
        exact ⟨[], _, rfl, by simp, .blank (by decide) hgap, .inl rfl⟩
      · have hne : (c != '\n') = true := by simpa using hc
        rw [hne]
        exact ⟨c :: body, gap, by rw [hsplit]; rfl,
          List.not_mem_cons_of_ne_of_not_mem (Ne.symm hc) hbody, hinside, hend⟩

theorem isGap_splitLayout (text : List Char) :
    IsGap (splitLayout false text).2.isEmpty (splitLayout false text).1 :=
  (isGap_splitLayout_aux text).1

/-- Layout and what follows it are the whole text. -/
theorem splitLayout_eq (inComment : Bool) (text : List Char) :
    (splitLayout inComment text).1 ++ (splitLayout inComment text).2 = text := by
  fun_induction splitLayout inComment text <;> simp_all

/-- No layout is left after the layout. -/
theorem splitLayout_splitLayout (inComment : Bool) (text : List Char) :
    splitLayout false (splitLayout inComment text).2 = ([], (splitLayout inComment text).2) := by
  induction text generalizing inComment with
  | nil => rfl
  | cons c text ih =>
    by_cases hin : inComment = true
    · simp only [splitLayout, hin, if_true]
      exact ih _
    rw [Bool.not_eq_true] at hin
    subst hin
    simp only [splitLayout, Bool.false_eq_true, if_false]
    split_ifs with hblank hopens
    · exact ih _
    · exact ih _
    · simp [splitLayout, hblank, hopens]

/-- **The layout before a text** is the gap that no other layout follows. -/
theorem splitLayout_eq_iff {text gap rest : List Char} :
    splitLayout false text = (gap, rest) ↔
      text = gap ++ rest ∧ IsGap rest.isEmpty gap ∧ splitLayout false rest = ([], rest) := by
  constructor
  · intro h
    have happend := splitLayout_eq false text
    have hgap := isGap_splitLayout text
    have hrest := splitLayout_splitLayout false text
    rw [h] at happend hgap hrest
    exact ⟨happend.symm, hgap, hrest⟩
  · rintro ⟨rfl, hgap, hrest⟩
    exact hgap.splitLayout_append List.isEmpty_iff.1 hrest

/-! ### Lexemes -/

/-- The characters between the quotes of a string, and the text that they stand for: a backslash
takes away the meaning of what follows it, and the quote stands nowhere else. -/
inductive Escaped (quote : Char) : List Char → List Char → Prop
  | nil : Escaped quote [] []
  | plain {c : Char} {body value : List Char} (hq : c ≠ quote) (hb : c ≠ '\\')
      (h : Escaped quote body value) : Escaped quote (c :: body) (c :: value)
  | escape {c : Char} {body value : List Char} (h : Escaped quote body value) :
      Escaped quote ('\\' :: c :: body) (Lexeme.unescape c :: value)

/-- The form of a number: an optional sign, digits, and optionally a point and digits. -/
structure IsNumeral (cs : List Char) : Prop where
  parts : ∃ sign whole fraction, cs = sign ++ whole ++ fraction ∧ (sign = [] ∨ sign = ['-']) ∧
    (whole ≠ [] ∧ ∀ c ∈ whole, isDigit c = true) ∧
    (fraction = [] ∨ ∃ digits, fraction = '.' :: digits ∧ digits ≠ [] ∧
      ∀ c ∈ digits, isDigit c = true)

/-- The characters of a lexeme of a kind, and the text that it stands for. -/
inductive IsLexeme : TokenKind → List Char → List Char → Prop
  | identifier {chars : List Char} (h : isWord chars = true) : IsLexeme .identifier chars chars
  | number {chars : List Char} (h : IsNumeral chars) : IsLexeme .number chars chars
  | string {quote : Char} {body value : List Char} (hq : quote = '"' ∨ quote = '\'')
      (h : Escaped quote body value) : IsLexeme .string (quote :: (body ++ [quote])) value
  | sign {kind : TokenKind} (h : kind ∉ [.identifier, .string, .number, .eof]) :
      IsLexeme kind kind.text.toList kind.text.toList

/-- A lexeme is read as far as possible: no longer start of the text is a lexeme of any kind, and
neither an identifier nor a number runs into a letter or a digit. -/
structure EndsBefore (kind : TokenKind) (chars rest : List Char) : Prop where
  longest : ∀ more, more <+: rest → more ≠ [] →
    ∀ kind' value, ¬ IsLexeme kind' (chars ++ more) value
  apart : kind = .identifier ∨ kind = .number → ∀ c ∈ rest.head?, isIdentifierPart c = false

/-- What follows a lexeme does not continue it, as its first two characters tell. -/
structure Lexeme.Stops (kind : TokenKind) (chars rest : List Char) : Prop where
  word : kind = .identifier ∨ kind = .number → ∀ c ∈ rest.head?, isIdentifierPart c = false
  point : kind = .number → '.' ∉ chars → ∀ c more, rest = '.' :: c :: more → isDigit c = false
  pair : ∀ a, Lexeme.singleKind? a = some kind → ∀ c ∈ rest.head?, Lexeme.pairKind? a c = none

namespace Lexeme

variable {kind : TokenKind} {chars value rest : List Char}

/-! ### Signs -/

theorem text_of_singleKind? {c : Char} (h : singleKind? c = some kind) :
    kind ∉ [.identifier, .string, .number, .eof] ∧ kind.text.toList = [c] := by
  unfold singleKind? at h
  split at h <;> cases h <;> decide

theorem text_of_pairKind? {c d : Char} (h : pairKind? c d = some kind) :
    kind ∉ [.identifier, .string, .number, .eof] ∧ kind.text.toList = [c, d] := by
  unfold pairKind? at h
  split at h <;> cases h <;> decide

theorem isLexeme_single {c : Char} (h : singleKind? c = some kind) : IsLexeme kind [c] [c] := by
  obtain ⟨hkind, htext⟩ := text_of_singleKind? h
  exact htext ▸ .sign hkind

theorem isLexeme_pair {c d : Char} (h : pairKind? c d = some kind) :
    IsLexeme kind [c, d] [c, d] := by
  obtain ⟨hkind, htext⟩ := text_of_pairKind? h
  exact htext ▸ .sign hkind

/-- A sign has one character or two. -/
theorem sign_cases (h : kind ∉ [.identifier, .string, .number, .eof]) :
    (∃ c, kind.text.toList = [c] ∧ singleKind? c = some kind) ∨
      ∃ c d, kind.text.toList = [c, d] ∧ pairKind? c d = some kind := by
  cases kind with
  | identifier => exact absurd h (by decide)
  | string => exact absurd h (by decide)
  | number => exact absurd h (by decide)
  | eof => exact absurd h (by decide)
  | doubleColon => exact .inr ⟨':', ':', by decide, rfl⟩
  | doubleEquals => exact .inr ⟨'=', '=', by decide, rfl⟩
  | notEquals => exact .inr ⟨'!', '=', by decide, rfl⟩
  | doubleAmpersand => exact .inr ⟨'&', '&', by decide, rfl⟩
  | doublePipe => exact .inr ⟨'|', '|', by decide, rfl⟩
  | equals => exact .inl ⟨'=', by decide, rfl⟩
  | lparen => exact .inl ⟨'(', by decide, rfl⟩
  | rparen => exact .inl ⟨')', by decide, rfl⟩
  | lbrace => exact .inl ⟨'{', by decide, rfl⟩
  | rbrace => exact .inl ⟨'}', by decide, rfl⟩
  | lbracket => exact .inl ⟨'[', by decide, rfl⟩
  | rbracket => exact .inl ⟨']', by decide, rfl⟩
  | comma => exact .inl ⟨',', by decide, rfl⟩
  | dot => exact .inl ⟨'.', by decide, rfl⟩
  | colon => exact .inl ⟨':', by decide, rfl⟩
  | bang => exact .inl ⟨'!', by decide, rfl⟩

/-! ### Strings -/

/-- A string is read up to its closing quote. -/
theorem quotedBody_of_escaped {quote : Char} {body : List Char} (hq : quote ≠ '\\')
    (h : Escaped quote body value) (rest : List Char) :
    quotedBody quote (body ++ quote :: rest) = some (value, body ++ [quote], rest) := by
  induction h with
  | nil =>
    rw [List.nil_append, quotedBody, if_pos rfl]
    · rfl
    · exact fun hback => absurd hback hq
    · exact fun _ _ hback => absurd hback hq
  | @plain c body value hne hb _ ih =>
    rw [List.cons_append, quotedBody, if_neg hne, ih]
    · rfl
    · exact fun hback => absurd hback hb
    · exact fun _ _ hback => absurd hback hb
  | escape _ ih =>
    rw [List.cons_append, List.cons_append, quotedBody, ih]
    rfl

theorem escaped_of_quotedBody {quote : Char} {text passed : List Char}
    (h : quotedBody quote text = some (value, passed, rest)) :
    ∃ body, passed = body ++ [quote] ∧ Escaped quote body value := by
  fun_induction quotedBody quote text generalizing value passed rest with
  | case1 => cases h
  | case2 => cases h
  | case3 c text ih =>
    obtain ⟨⟨value', passed', rest'⟩, hbody, heq⟩ := Option.map_eq_some_iff.1 h
    cases heq
    obtain ⟨body, rfl, hescaped⟩ := ih hbody
    exact ⟨_, rfl, .escape hescaped⟩
  | case4 text hne =>
    cases h
    exact ⟨[], rfl, .nil⟩
  | case5 c text hne hback hq ih =>
    obtain ⟨⟨value', passed', rest'⟩, hbody, heq⟩ := Option.map_eq_some_iff.1 h
    cases heq
    obtain ⟨body, rfl, hescaped⟩ := ih hbody
    refine ⟨_, rfl, .plain hq ?_ hescaped⟩
    rintro rfl
    cases text with
    | nil => exact hne rfl rfl
    | cons d text => exact hback d text rfl rfl

/-! ### Numbers -/

/-- Nothing, or a point and digits. -/
private def IsFraction (cs : List Char) : Prop :=
  cs = [] ∨ ∃ digits, cs = '.' :: digits ∧ digits ≠ [] ∧ ∀ c ∈ digits, isDigit c = true

private theorem fraction_point {tail : List Char} (h : tail.takeWhile isDigit ≠ []) :
    fraction ('.' :: tail) = '.' :: tail.takeWhile isDigit := by
  unfold fraction
  split
  next heq =>
    cases heq
    split
    next hnil => exact absurd hnil h
    · rfl
  next hne => exact absurd rfl (hne _)

private theorem fraction_eq_nil_iff {tail : List Char} :
    fraction tail = [] ↔ ∀ c more, tail = '.' :: c :: more → isDigit c = false := by
  by_cases hpoint : tail.head? = some '.'
  · obtain ⟨tail, rfl⟩ := List.head?_eq_some_iff.1 hpoint
    cases tail with
    | nil => simp [fraction]
    | cons c tail => by_cases hc : isDigit c = true <;> simp [fraction, hc]
  · refine iff_of_true ?_ (by rintro c more rfl; exact absurd rfl hpoint)
    unfold fraction
    split
    · exact absurd rfl hpoint
    · rfl

/-- The fraction at the start of a text, and what follows it. -/
private theorem exists_fraction {tail : List Char} (h : ∀ c ∈ tail.head?, isDigit c = false) :
    ∃ frac rest, tail = frac ++ rest ∧ fraction tail = frac ∧ IsFraction frac ∧
      (∀ c ∈ rest.head?, isDigit c = false) ∧ (frac = [] → rest = tail) := by
  by_cases hnil : fraction tail = []
  · exact ⟨[], tail, rfl, hnil, .inl rfl, h, fun _ => rfl⟩
  · rw [fraction_eq_nil_iff] at hnil
    push Not at hnil
    obtain ⟨c, more, rfl, hc⟩ := hnil
    have hne : (c :: more).takeWhile isDigit ≠ [] := by simpa using hc
    refine ⟨_, (c :: more).dropWhile isDigit, ?_, fraction_point hne, .inr ⟨_, rfl, hne, ?_⟩, ?_,
      by simp⟩
    · rw [List.cons_append, List.takeWhile_append_dropWhile]
    · exact fun d => List.mem_takeWhile_imp
    · intro d hd
      simpa [Option.mem_def.1 hd] using List.head?_dropWhile_not isDigit (c :: more)

/-- What is read of a number starts with its sign, its digits and its fraction. -/
private theorem prefix_readNumber (sign text : List Char) :
    sign ++ text.takeWhile isDigit ++ fraction (text.dropWhile isDigit) <+:
      (readNumber sign text).passed := by
  simp only [readNumber]
  split
  · split_ifs
    · exact List.prefix_append _ _
    · exact List.prefix_rfl
    · exact List.prefix_rfl
  · exact List.prefix_rfl

/-- A number is read that runs into no letter. -/
private theorem readNumber_numeral {sign whole frac rest : List Char}
    (hwhole : ∀ c ∈ whole, isDigit c = true) (hstop : ∀ c ∈ (frac ++ rest).head?, isDigit c = false)
    (hfrac : fraction (frac ++ rest) = frac)
    (hrest : ∀ c ∈ rest.head?, isIdentifierStart c = false) :
    readNumber sign (whole ++ (frac ++ rest)) =
      ⟨.ok (.number, sign ++ whole ++ frac), sign ++ whole ++ frac, rest⟩ := by
  simp only [readNumber, takeWhile_append_stop hwhole hstop, hfrac, List.drop_left]
  cases rest with
  | nil => rfl
  | cons c rest => simp [hrest c rfl]

/-! ### What is read -/

/-- What was read is a lexeme, and what follows does not continue it. -/
private def IsExact (l : Lexeme) : Prop :=
  ∀ kind value, l.result = .ok (kind, value) →
    IsLexeme kind l.passed value ∧ Stops kind l.passed l.rest

private theorem singleKind?_ne (h : kind ∈ [.identifier, .string, .number, .eof]) (c : Char) :
    singleKind? c ≠ some kind := fun hc => (text_of_singleKind? hc).1 h

private theorem stops_word (hrest : ∀ c ∈ rest.head?, isIdentifierPart c = false) :
    Stops .identifier chars rest where
  word _ := hrest
  point h := by cases h
  pair c hc := absurd hc (singleKind?_ne (by decide) c)

theorem stops_string : Stops .string chars rest :=
  ⟨by simp, by simp, fun c hc => absurd hc (singleKind?_ne (by decide) c)⟩

theorem stops_number (hrest : ∀ c ∈ rest.head?, isIdentifierPart c = false ∧ c ≠ '.') :
    Stops .number chars rest where
  word _ c hc := (hrest c hc).1
  point _ _ c more h := absurd rfl (hrest '.' (by simp [h])).2
  pair c hc := absurd hc (singleKind?_ne (by decide) c)

private theorem isExact_readString {quote : Char} (hq : quote = '"' ∨ quote = '\'')
    (text : List Char) : IsExact (readString quote text) := by
  intro kind value hok
  unfold readString at hok ⊢
  split at hok
  next hbody =>
    cases hok
    obtain ⟨body, rfl, hescaped⟩ := escaped_of_quotedBody hbody
    exact ⟨.string hq hescaped, stops_string⟩
  · cases hok

private theorem isExact_readNumber {sign text : List Char} (hsign : sign = [] ∨ sign = ['-'])
    (htext : text.head?.any isDigit = true) : IsExact (readNumber sign text) := by
  have hdigits : ∀ c ∈ text.takeWhile isDigit, isDigit c = true := fun c => List.mem_takeWhile_imp
  have hne : text.takeWhile isDigit ≠ [] := by
    cases text with
    | nil => cases htext
    | cons c text => simpa using htext
  have hstop : ∀ c ∈ (text.dropWhile isDigit).head?, isDigit c = false := by
    intro c hc
    simpa [Option.mem_def.1 hc] using List.head?_dropWhile_not isDigit text
  obtain ⟨frac, rest, htail, hfrac, hform, hrest, hsame⟩ := exists_fraction hstop
  have hnumeral : IsNumeral (sign ++ text.takeWhile isDigit ++ frac) :=
    ⟨sign, _, frac, rfl, hsign, ⟨hne, hdigits⟩, hform⟩
  have hnumber (hletter : ∀ c ∈ rest.head?, isIdentifierStart c = false) :
      IsExact ⟨.ok (.number, sign ++ text.takeWhile isDigit ++ frac),
        sign ++ text.takeWhile isDigit ++ frac, rest⟩ := by
    intro kind value hok
    cases hok
    refine ⟨.number hnumeral, fun _ c hc => ?_, fun _ hpoint => ?_,
      fun c hc => absurd hc (singleKind?_ne (by decide) c)⟩
    · rw [isIdentifierPart, hletter c hc, hrest c hc, Bool.or_self]
    · have hnone : frac = [] := by
        refine hform.resolve_right ?_
        rintro ⟨digits, rfl, -, -⟩
        exact hpoint (by simp)
      rw [hsame hnone, ← fraction_eq_nil_iff, hfrac, hnone]
  simp only [readNumber, hfrac]
  rw [htail, List.drop_left]
  cases rest with
  | nil => exact hnumber (by simp)
  | cons c rest =>
    dsimp only
    split_ifs with hc hplain
    · intro kind value hok
      cases hok
      simp only [Bool.and_eq_true, List.isEmpty_iff] at hplain
      obtain ⟨rfl, rfl⟩ := hplain
      refine ⟨.identifier ?_, stops_word fun d hd => ?_⟩
      · simp only [isWord, List.nil_append, List.append_nil, List.all_append, List.any_append,
          Bool.and_eq_true, Bool.or_eq_true, List.all_eq_true, List.any_eq_true]
        refine ⟨⟨fun d hd => isIdentifierPart_iff.2 (.inr (hdigits d hd)),
          fun d hd => List.mem_takeWhile_imp hd⟩, .inr ⟨c, ?_, hc⟩⟩
        simp [isIdentifierPart_iff.2 (.inl hc)]
      · simpa [Option.mem_def.1 hd] using List.head?_dropWhile_not isIdentifierPart (c :: rest)
    · intro kind value hok
      cases hok
    · exact hnumber (by simpa using hc)

private theorem isExact_readOne {c : Char} {text : List Char}
    (hpair : ∀ d ∈ text.head?, pairKind? c d = none) : IsExact (readOne c text) := by
  unfold readOne
  split
  next kind hk =>
    intro kind' value hok
    cases hok
    have hsign := (text_of_singleKind? hk).1
    refine ⟨isLexeme_single hk, fun h => ?_, fun h => ?_, fun d hd => ?_⟩
    · rcases h with rfl | rfl <;> exact absurd hsign (by decide)
    · subst h
      exact absurd hsign (by decide)
    · have htext := (text_of_singleKind? hk).2.symm.trans (text_of_singleKind? hd).2
      cases htext
      exact hpair
  · split_ifs with hquote hdigit hminus hletter
    · exact isExact_readString hquote text
    · exact isExact_readNumber (.inl rfl) (by simpa using hdigit)
    · obtain ⟨rfl, hnext⟩ := hminus
      exact isExact_readNumber (.inr rfl) hnext
    · intro kind value hok
      cases hok
      refine ⟨.identifier ?_, stops_word fun d hd => ?_⟩
      · simp only [isWord, Bool.and_eq_true, List.all_eq_true, List.any_eq_true]
        exact ⟨fun d hd => List.mem_takeWhile_imp hd, c,
          by simp [isIdentifierPart_iff.2 (.inl hletter)], hletter⟩
      · simpa [Option.mem_def.1 hd] using List.head?_dropWhile_not isIdentifierPart (c :: text)
    all_goals
      intro kind value hok
      cases hok

/-- What is read before the end of a text is a lexeme that is not continued. -/
theorem isLexeme_and_stops_of_read {text : List Char} (hne : text ≠ [])
    (h : (read text).result = .ok (kind, value)) :
    IsLexeme kind (read text).passed value ∧ Stops kind (read text).passed (read text).rest := by
  obtain ⟨c, text, rfl⟩ := List.exists_cons_of_ne_nil hne
  by_cases hpair : ∀ d ∈ text.head?, pairKind? c d = none
  · rw [read_cons hpair] at h ⊢
    exact isExact_readOne hpair kind value h
  · push Not at hpair
    obtain ⟨d, hd, hpair⟩ := hpair
    obtain ⟨text, rfl⟩ := List.head?_eq_some_iff.1 hd
    obtain ⟨kind', hk⟩ := Option.ne_none_iff_exists'.1 hpair
    simp only [read, hk] at h ⊢
    cases h
    have hsign := (text_of_pairKind? hk).1
    refine ⟨isLexeme_pair hk, fun h => ?_, fun h => ?_, fun a ha => ?_⟩
    · rcases h with rfl | rfl <;> exact absurd hsign (by decide)
    · subst h
      exact absurd hsign (by decide)
    · have htext := (text_of_singleKind? ha).2.symm.trans (text_of_pairKind? hk).2
      cases htext

/-! ### How far is read -/

/-- What starts with a digit, with or without a sign, is read as a number. -/
private theorem read_digits {sign text : List Char} (hsign : sign = [] ∨ sign = ['-'])
    (htext : text.head?.any isDigit = true) : read (sign ++ text) = readNumber sign text := by
  obtain ⟨d, text, rfl⟩ : ∃ d more, text = d :: more := by
    cases text with
    | nil => cases htext
    | cons d text => exact ⟨d, text, rfl⟩
  have hd : isDigit d = true := by simpa using htext
  have hpart := isIdentifierPart_iff.2 (.inr hd)
  rcases hsign with rfl | rfl
  · have hquote : ¬ (d = '"' ∨ d = '\'') := by
      rintro (rfl | rfl) <;> exact absurd hpart (by decide)
    rw [List.nil_append, read_cons_of_notMem (notMem_of_isIdentifierPart hpart (by decide)),
      readOne, singleKind?_eq_none (notMem_of_isIdentifierPart hpart (by decide))]
    simp only [if_neg hquote, if_pos hd]
  · have hminus : isDigit '-' = false := by decide
    rw [List.singleton_append, read_cons_of_notMem (by decide), readOne,
      singleKind?_eq_none (by decide)]
    simp [hminus, hd]

private theorem read_quoted {quote : Char} {body : List Char} (hq : quote = '"' ∨ quote = '\'')
    (h : Escaped quote body value) (rest : List Char) :
    read (quote :: (body ++ [quote]) ++ rest) =
      ⟨.ok (.string, value), quote :: (body ++ [quote]), rest⟩ := by
  have hback : quote ≠ '\\' := by rcases hq with rfl | rfl <;> decide
  have hpair : quote ∉ ['=', '!', '&', '|', ':'] := by rcases hq with rfl | rfl <;> decide
  have hone : singleKind? quote = none := by rcases hq with rfl | rfl <;> rfl
  have hbody := quotedBody_of_escaped hback h rest
  rw [List.cons_append, List.append_assoc, List.singleton_append, read_cons_of_notMem hpair,
    readOne, hone]
  simp only [if_pos hq, readString, hbody]

/-- The parts of a number in front of a text. -/
private theorem exists_numeral (h : IsNumeral chars) :
    ∃ sign whole frac, (∀ rest, chars ++ rest = sign ++ (whole ++ (frac ++ rest))) ∧
      chars = sign ++ whole ++ frac ∧ (sign = [] ∨ sign = ['-']) ∧
      (∀ rest : List Char, (whole ++ rest).head?.any isDigit = true) ∧
      (∀ c ∈ whole, isDigit c = true) ∧ IsFraction frac := by
  obtain ⟨sign, whole, frac, rfl, hsign, ⟨hne, hwhole⟩, hfrac⟩ := h.parts
  refine ⟨sign, whole, frac, by simp, rfl, hsign, fun rest => ?_, hwhole, hfrac⟩
  obtain ⟨d, whole, rfl⟩ := List.exists_cons_of_ne_nil hne
  simpa using hwhole d (by simp)

/-- **A lexeme that is not continued is read.** -/
theorem read_of_stops (h : IsLexeme kind chars value) (hs : Stops kind chars rest) :
    read (chars ++ rest) = ⟨.ok (kind, value), chars, rest⟩ := by
  cases h with
  | identifier hword => simpa using (begins_word hword (hs.word (.inl rfl))).read
  | string hq hescaped => exact read_quoted hq hescaped rest
  | sign hkind =>
    obtain ⟨c, htext, hk⟩ | ⟨c, d, htext, hk⟩ := sign_cases hkind
    · rw [htext]
      simpa using (begins_single hk (hs.pair c hk)).read
    · rw [htext]
      simpa using (begins_pair hk).read
  | number hnumeral =>
    obtain ⟨sign, whole, frac, hchars, rfl, hsign, hhead, hwhole, hform⟩ := exists_numeral hnumeral
    have hpart := hs.word (.inr rfl)
    have hdigit : ∀ c ∈ rest.head?, isDigit c = false := fun c hc =>
      (Bool.or_eq_false_iff.1 (hpart c hc)).2
    have hletter : ∀ c ∈ rest.head?, isIdentifierStart c = false := fun c hc =>
      (Bool.or_eq_false_iff.1 (hpart c hc)).1
    rw [hchars, read_digits hsign (hhead _)]
    rcases hform with rfl | ⟨digits, rfl, hne, hdigits⟩
    · refine readNumber_numeral hwhole hdigit ?_ hletter
      rw [List.nil_append, fraction_eq_nil_iff]
      refine hs.point rfl ?_
      simp only [List.append_nil, List.mem_append, not_or]
      refine ⟨?_, fun hmem => absurd (hwhole _ hmem) (by decide)⟩
      rcases hsign with rfl | rfl <;> decide
    · refine readNumber_numeral hwhole (by simpa using by decide) ?_ hletter
      have htake := (takeWhile_append_stop hdigits hdigit).1
      rw [List.cons_append, fraction_point (htake.symm ▸ hne), htake]

/-- Reading never stops inside a lexeme. -/
theorem prefix_passed_read (h : IsLexeme kind chars value) (rest : List Char) :
    chars <+: (read (chars ++ rest)).passed := by
  cases h with
  | identifier hword =>
    -- The identifier goes on with the letters and digits after it.
    have hlonger : isWord (chars ++ rest.takeWhile isIdentifierPart) = true := by
      simp only [isWord, Bool.and_eq_true, List.all_append, List.any_append] at hword ⊢
      refine ⟨⟨hword.1, List.all_eq_true.2 fun c hc => List.mem_takeWhile_imp hc⟩, ?_⟩
      rw [hword.2, Bool.true_or]
    have hread := (@begins_word _ (rest.dropWhile isIdentifierPart) hlonger fun c hc => by
      simpa [Option.mem_def.1 hc] using List.head?_dropWhile_not isIdentifierPart rest).read
    rw [List.append_assoc, List.takeWhile_append_dropWhile] at hread
    rw [hread]
    exact List.prefix_append _ _
  | string hq hescaped =>
    rw [read_quoted hq hescaped rest]
  | sign hkind =>
    obtain ⟨c, htext, hk⟩ | ⟨c, d, htext, hk⟩ := sign_cases hkind
    · rw [htext]
      by_cases hpair : ∀ d ∈ rest.head?, pairKind? c d = none
      · rw [(begins_single hk hpair).read]
      · push Not at hpair
        obtain ⟨d, hd, hpair⟩ := hpair
        obtain ⟨rest, rfl⟩ := List.head?_eq_some_iff.1 hd
        obtain ⟨kind', hk'⟩ := Option.ne_none_iff_exists'.1 hpair
        have hread := (@begins_pair c d rest kind' hk').read
        rw [List.cons_append, List.singleton_append] at hread
        rw [List.singleton_append, hread]
        exact ⟨[d], rfl⟩
    · rw [htext, (begins_pair hk).read]
  | number hnumeral =>
    obtain ⟨sign, whole, frac, hchars, rfl, hsign, hhead, hwhole, hform⟩ := exists_numeral hnumeral
    rw [hchars, read_digits hsign (hhead _)]
    refine List.IsPrefix.trans ?_ (prefix_readNumber sign _)
    rw [List.takeWhile_append_of_pos hwhole, List.dropWhile_append_of_pos hwhole]
    rcases hform with rfl | ⟨digits, rfl, hne, hdigits⟩
    · rw [List.append_nil, ← List.append_assoc, List.append_assoc]
      exact List.prefix_append _ _
    · have hpoint : isDigit '.' = false := by decide
      have htake : (digits ++ rest).takeWhile isDigit = digits ++ rest.takeWhile isDigit :=
        List.takeWhile_append_of_pos hdigits
      have hsome : (digits ++ rest).takeWhile isDigit ≠ [] := by simp [htake, hne]
      simp only [List.cons_append, List.takeWhile_cons, List.dropWhile_cons, hpoint,
        Bool.false_eq_true, if_false, List.append_nil, fraction_point hsome, htake]
      exact ⟨rest.takeWhile isDigit, by simp⟩

end Lexeme

/-! ### Longest lexemes -/

namespace IsLexeme

variable {kind : TokenKind} {chars value rest : List Char}

private theorem append_point {c : Char} (h : IsLexeme .number chars value) (hpoint : '.' ∉ chars)
    (hc : isDigit c = true) : IsNumeral (chars ++ ['.', c]) := by
  cases h with
  | sign hkind => exact absurd hkind (by decide)
  | number hnumeral =>
    obtain ⟨sign, whole, frac, rfl, hsign, hwhole, rfl | ⟨digits, rfl, -⟩⟩ := hnumeral.parts
    · exact ⟨sign, whole, ['.', c], by simp, hsign, hwhole, .inr ⟨[c], rfl, by simp, by simpa⟩⟩
    · exact absurd (by simp) hpoint

private theorem eq_singleton {c : Char} (h : IsLexeme kind chars value)
    (hc : Lexeme.singleKind? c = some kind) : chars = [c] := by
  obtain ⟨hkind, htext⟩ := Lexeme.text_of_singleKind? hc
  cases h with
  | identifier => exact absurd hkind (by decide)
  | number => exact absurd hkind (by decide)
  | string => exact absurd hkind (by decide)
  | sign => exact htext

/-- The first two characters after a lexeme tell whether it ends there. -/
theorem endsBefore_iff_stops (h : IsLexeme kind chars value) :
    EndsBefore kind chars rest ↔ Lexeme.Stops kind chars rest := by
  constructor
  · intro hends
    refine ⟨hends.apart, ?_, fun a ha c hc => ?_⟩
    · rintro rfl hpoint c more rfl
      by_contra hc
      rw [Bool.not_eq_false] at hc
      exact hends.longest ['.', c] ⟨more, rfl⟩ (by simp) .number _
        (.number (h.append_point hpoint hc))
    · obtain ⟨rest, rfl⟩ := List.head?_eq_some_iff.1 hc
      by_contra hpair
      obtain ⟨kind', hk⟩ := Option.ne_none_iff_exists'.1 hpair
      obtain rfl := h.eq_singleton ha
      exact hends.longest [c] ⟨rest, rfl⟩ (by simp) kind' _ (Lexeme.isLexeme_pair hk)
  · intro hstops
    refine ⟨fun more hmore hne kind' value' hlonger => hne ?_, hstops.word⟩
    obtain ⟨rest, rfl⟩ := hmore
    have hprefix := (Lexeme.prefix_passed_read hlonger rest).length_le
    rw [List.append_assoc, Lexeme.read_of_stops h hstops, List.length_append] at hprefix
    dsimp only at hprefix
    exact List.eq_nil_of_length_eq_zero (by omega)

/-- A lexeme starts with neither a blank nor a comment. -/
theorem exists_cons (h : IsLexeme kind chars value) :
    ∃ c more, chars = c :: more ∧ isBlank c = false ∧ c ≠ '#' ∧ c ≠ '/' := by
  have hpart {c : Char} (hc : isIdentifierPart c = true) :
      isBlank c = false ∧ c ≠ '#' ∧ c ≠ '/' :=
    ⟨isBlank_eq_false_of_isIdentifierPart hc, by rintro rfl; exact absurd hc (by decide),
      by rintro rfl; exact absurd hc (by decide)⟩
  cases h with
  | identifier hword =>
    simp only [isWord, Bool.and_eq_true, List.all_eq_true, List.any_eq_true] at hword
    obtain ⟨hall, start, hstart, -⟩ := hword
    obtain ⟨c, more, rfl⟩ := List.exists_cons_of_ne_nil (List.ne_nil_of_mem hstart)
    exact ⟨c, more, rfl, hpart (hall c (by simp))⟩
  | number hnumeral =>
    obtain ⟨sign, whole, frac, rfl, hsign, ⟨hne, hwhole⟩, -⟩ := hnumeral.parts
    obtain ⟨d, whole, rfl⟩ := List.exists_cons_of_ne_nil hne
    rcases hsign with rfl | rfl
    · exact ⟨d, _, rfl, hpart (isIdentifierPart_iff.2 (.inr (hwhole d (by simp))))⟩
    · exact ⟨'-', _, rfl, by decide, by decide, by decide⟩
  | string hq _ =>
    refine ⟨_, _, rfl, ?_⟩
    rcases hq with rfl | rfl <;> decide
  | sign hkind =>
    cases kind with
    | identifier => exact absurd hkind (by decide)
    | number => exact absurd hkind (by decide)
    | string => exact absurd hkind (by decide)
    | eof => exact absurd hkind (by decide)
    | _ => exact ⟨_, _, rfl, by decide, by decide, by decide⟩

theorem ne_nil (h : IsLexeme kind chars value) : chars ≠ [] := by
  obtain ⟨c, more, rfl, -⟩ := h.exists_cons
  exact List.cons_ne_nil c more

theorem splitLayout_append (h : IsLexeme kind chars value) (rest : List Char) :
    splitLayout false (chars ++ rest) = ([], chars ++ rest) := by
  obtain ⟨c, more, rfl, hblank, hhash, hslash⟩ := h.exists_cons
  exact Lexeme.splitLayout_cons hblank hhash hslash

/-- A lexeme that is not continued begins a text. -/
theorem begins (h : IsLexeme kind chars value) (hs : Lexeme.Stops kind chars rest)
    (hline : '\n' ∉ chars) : Lexeme.Begins chars rest ⟨kind, String.ofList value⟩ :=
  ⟨by rw [Lexeme.read_of_stops h hs, String.toList_ofList], h.splitLayout_append rest, h.ne_nil,
    hline⟩

theorem kind_ne_eof (h : IsLexeme kind chars value) : kind ≠ .eof := by
  cases h with
  | sign hkind => exact fun heof => hkind (by simp [heof])
  | _ => decide

theorem isWord (h : IsLexeme kind chars value) (hk : kind = .identifier) :
    StackScript.isWord value = true := by
  cases h with
  | identifier hword => exact hword
  | sign hkind => exact absurd (by simp [hk]) hkind
  | _ => cases hk

theorem exists_quote (h : IsLexeme kind chars value) (hk : kind = .string) :
    ∃ quote body, chars = quote :: (body ++ [quote]) ∧ (quote = '"' ∨ quote = '\'') ∧
      Escaped quote body value := by
  cases h with
  | string hq hbody => exact ⟨_, _, rfl, hq, hbody⟩
  | sign hkind => exact absurd (by simp [hk]) hkind
  | _ => cases hk

theorem isNumeral (h : IsLexeme kind chars value) (hk : kind = .number) : IsNumeral value := by
  cases h with
  | number hnumeral => exact hnumeral
  | sign hkind => exact absurd (by simp [hk]) hkind
  | _ => cases hk

end IsLexeme

/-- **What is read** are the lexemes that end before the rest of the text. -/
theorem Lexeme.read_eq_iff {kind : TokenKind} {chars value rest : List Char} (hne : chars ≠ []) :
    read (chars ++ rest) = ⟨.ok (kind, value), chars, rest⟩ ↔
      IsLexeme kind chars value ∧ EndsBefore kind chars rest := by
  constructor
  · intro h
    have hexact :=
      @isLexeme_and_stops_of_read kind value (chars ++ rest) (by simp [hne]) (by rw [h])
    rw [h] at hexact
    exact ⟨hexact.1, hexact.1.endsBefore_iff_stops.2 hexact.2⟩
  · rintro ⟨hlexeme, hends⟩
    exact read_of_stops hlexeme (hlexeme.endsBefore_iff_stops.1 hends)

end StackScript
