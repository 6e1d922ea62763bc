import Mathlib.Data.List.Forall2
import StackScript.Proofs.Grammar.Reads
import StackScript.Proofs.Token.Forms
import StackScript.Spelling

/-!
# Words of a script and their spelling

Names, strings, numbers and signs are read back from their spelling, each as one word, if what
follows does not run on: a name must not be followed by a letter, a number neither by a letter nor
by a point. Texts are put together from the right, so that it is known what follows.

## Main definitions

* `EndsName`, `Ends`: what may follow a name or an expression in a script.
* `SpelledBefore`, `Spelled`: a text that is read as given words.

## Main results

* `Scan.word`, `Scan.string`, `Scan.number`, `Scan.single`: one word before others.
* `SpelledBefore.append`, `spelled_intercalate`: texts in a row, and with separators between them.
-/

namespace StackScript

open Text Number

/-! ### Strings -/

namespace Lexeme

/-- A character is spelled by a backslash and a letter, or by itself. -/
theorem escapeChar_cases (c : Char) :
    (∃ letter, escapeChar c = ['\\', letter] ∧ unescape letter = c ∧ letter ≠ '\n') ∨
      escapeChar c = [c] ∧ c ≠ '\\' ∧ c ≠ '\'' ∧ c ≠ '\n' := by
  unfold escapeChar
  split
  · exact .inl ⟨'\\', rfl, rfl, by decide⟩
  · exact .inl ⟨'\'', rfl, rfl, by decide⟩
  · exact .inl ⟨'n', rfl, rfl, by decide⟩
  · exact .inl ⟨'t', rfl, rfl, by decide⟩
  · exact .inl ⟨'r', rfl, rfl, by decide⟩
  next hback hquote hnewline _ _ => exact .inr ⟨rfl, hback, hquote, hnewline⟩

/-- What is written between quotes stands for the string. -/
theorem escaped_escape (cs : List Char) : Escaped '\'' (cs.flatMap escapeChar) cs := by
  induction cs with
  | nil => exact .nil
  | cons c cs ih =>
    rw [List.flatMap_cons]
    obtain ⟨letter, hescape, hletter, -⟩ | ⟨hescape, hback, hquote, -⟩ := escapeChar_cases c
    · rw [hescape, ← hletter]
      exact .escape ih
    · rw [hescape]
      exact .plain hquote hback ih

theorem newline_notMem_quoteString (cs : List Char) : '\n' ∉ quoteString cs := by
  rw [quoteString, List.cons_append, List.mem_cons, List.mem_append, List.mem_flatMap]
  rintro (h | ⟨c, -, h⟩ | h)
  · exact absurd h (by decide)
  · obtain ⟨letter, hescape, -, hletter⟩ | ⟨hescape, -, -, hnewline⟩ := escapeChar_cases c
    · rw [hescape, List.mem_cons, List.mem_singleton] at h
      exact h.elim (by decide) fun h => hletter h.symm
    · rw [hescape, List.mem_singleton] at h
      exact hnewline h.symm
  · exact absurd h (by decide)

/-- A string in quotes. -/
theorem begins_string (s : String) (rest : List Char) :
    Begins (quoteString s.toList) rest (.str s) := by
  have hlexeme : IsLexeme .string (quoteString s.toList) s.toList :=
    .string (.inr rfl) (escaped_escape s.toList)
  have h := hlexeme.begins (@stops_string _ rest) (newline_notMem_quoteString _)
  rwa [String.ofList_toList] at h

/-- A number. -/
theorem begins_number {cs rest : List Char} (h : IsNumeral cs)
    (hrest : ∀ c ∈ rest.head?, isIdentifierPart c = false ∧ c ≠ '.') :
    Begins cs rest ⟨.number, String.ofList cs⟩ := by
  refine (IsLexeme.number h).begins (stops_number hrest) ?_
  obtain ⟨sign, whole, frac, rfl, hsign, ⟨-, hwhole⟩, hfrac⟩ := h.parts
  simp only [List.mem_append, not_or]
  refine ⟨⟨?_, fun h => absurd (hwhole _ h) (by decide)⟩, ?_⟩
  · rcases hsign with rfl | rfl <;> decide
  · rcases hfrac with rfl | ⟨digits, rfl, -, hdigits⟩
    · simp
    · rw [List.mem_cons, not_or]
      exact ⟨by decide, fun h => absurd (hdigits _ h) (by decide)⟩

end Lexeme

/-! ### One word before others -/

namespace Scan

variable {rest : List Char} {vs : List (Bool × Word)}

theorem word {x : String} (hx : isWord x.toList = true)
    (hrest : ∀ c ∈ rest.head?, isIdentifierPart c = false) (h : Scan rest vs) :
    Scan (x.toList ++ rest) ((false, .ident x) :: vs) := by
  have hb := Lexeme.begins_word hx hrest
  rw [String.ofList_toList] at hb
  exact .cons hb h

theorem string (s : String) (h : Scan rest vs) :
    Scan (quoteString s.toList ++ rest) ((false, .str s) :: vs) :=
  .cons (Lexeme.begins_string s rest) h

theorem number {cs : List Char} (hcs : IsNumeral cs)
    (hrest : ∀ c ∈ rest.head?, isIdentifierPart c = false ∧ c ≠ '.') (h : Scan rest vs) :
    Scan (cs ++ rest) ((false, ⟨.number, String.ofList cs⟩) :: vs) :=
  .cons (Lexeme.begins_number hcs hrest) h

/-- A sign of one character that does not form a token with what follows. -/
theorem single {c : Char} {kind : TokenKind} (hk : Lexeme.singleKind? c = some kind)
    (hpair : ∀ d ∈ rest.head?, Lexeme.pairKind? c d = none) (h : Scan rest vs) :
    Scan (c :: rest) ((false, .sign kind) :: vs) := by
  have htext : String.ofList [c] = kind.text := by
    unfold Lexeme.singleKind? at hk
    split at hk <;> cases hk <;> rfl
  have hb := Lexeme.begins_single hk hpair
  rw [htext] at hb
  exact .cons hb h

/-- A bracket, a comma or a point. -/
theorem bracket {c : Char} {kind : TokenKind} (hk : Lexeme.singleKind? c = some kind)
    (hc : c ∉ ['=', '!', '&', '|', ':']) (h : Scan rest vs) :
    Scan (c :: rest) ((false, .sign kind) :: vs) := by
  refine single hk (fun d _ => ?_) h
  cases hpair : Lexeme.pairKind? c d with
  | none => rfl
  | some kind => exact absurd (Lexeme.pairKind?_eq_some hpair) hc

/-- A sign of two characters. -/
theorem pair {c d : Char} {kind : TokenKind} (hk : Lexeme.pairKind? c d = some kind)
    (h : Scan rest vs) : Scan (c :: d :: rest) ((false, .sign kind) :: vs) := by
  have htext : String.ofList [c, d] = kind.text := by
    unfold Lexeme.pairKind? at hk
    split at hk <;> cases hk <;> rfl
  have hb := @Lexeme.begins_pair _ _ rest _ hk
  rw [htext] at hb
  exact .cons hb h

theorem space (h : Scan rest vs) : Scan (' ' :: rest) vs := .blank (by decide) (by decide) h

end Scan

private theorem read_equals (text : List Char) : ∃ kind ∈ [TokenKind.equals, .doubleEquals],
    (Lexeme.read ('=' :: text)).result.map Prod.fst = .ok kind := by
  cases text with
  | nil => exact ⟨.equals, by simp, rfl⟩
  | cons d text =>
    by_cases hd : d = '='
    · exact ⟨.doubleEquals, by simp, by subst hd; rfl⟩
    · refine ⟨.equals, by simp, ?_⟩
      rw [Lexeme.read_cons]
      · rfl
      · rintro d' ⟨⟩
        unfold Lexeme.pairKind?
        split <;> simp_all

/-- What starts with an equals sign is read as a sign. -/
theorem Scan.head_ne_equals {c : Char} {text : List Char} {w : Bool × Word}
    {vs : List (Bool × Word)} (h : Scan (c :: text) (w :: vs))
    (hw : w.2.kind ∉ [.equals, .doubleEquals]) : c ≠ '=' := by
  rintro rfl
  generalize htext : '=' :: text = cs at h
  cases h with
  | @lexeme gap chars rest w vs hg hb _ =>
    cases gap with
    | cons d gap =>
      obtain rfl : '=' = d := (List.cons.inj htext).1
      exact absurd (hg '=' (by simp)) (by decide)
    | nil =>
      obtain ⟨kind, hmem, hkind⟩ := read_equals text
      rw [htext, List.nil_append, hb.read] at hkind
      cases hkind
      exact hw hmem

/-! ### Texts of several words -/

/-- What may follow a name: nothing that could be a part of it. -/
def EndsName (rest : List Char) : Prop := ∀ c ∈ rest.head?, isIdentifierPart c = false

theorem endsName_cons {c : Char} {rest : List Char} (h : isIdentifierPart c = false) :
    EndsName (c :: rest) := by simpa [EndsName] using h

/-- What may follow an expression: nothing, a blank, or a sign that ends things. -/
def Ends (rest : List Char) : Prop := ∀ c ∈ rest.head?, c ∈ [' ', ',', ')', ']', '\n']

theorem ends_cons {c : Char} {rest : List Char} (h : c ∈ [' ', ',', ')', ']', '\n']) :
    Ends (c :: rest) := by simpa [Ends] using h

/-- Neither a name nor a number runs on into what ends it. -/
theorem Ends.stops {rest : List Char} (h : Ends rest) :
    ∀ c ∈ rest.head?, isIdentifierPart c = false ∧ c ≠ '.' := by
  have hall : [' ', ',', ')', ']', '\n'].all (fun c => !isIdentifierPart c && c != '.') = true := by
    decide
  intro c hc
  simpa using List.all_eq_true.1 hall c (h c hc)

theorem Ends.endsName {rest : List Char} (h : Ends rest) : EndsName rest :=
  fun c hc => (h.stops c hc).1

/-- A text that is read as given words on one line, wherever something of a kind follows. -/
def SpelledBefore (follows : List Char → Prop) (cs : List Char) (ws : List Word) : Prop :=
  ∀ rest vs, follows rest → Scan rest vs → Scan (cs ++ rest) (ws.map (false, ·) ++ vs)

/-- A text that is read as given words on one line, wherever something that ends it follows. -/
abbrev Spelled (cs : List Char) (ws : List Word) : Prop := SpelledBefore Ends cs ws

section Spelled

variable {follows : List Char → Prop} {cs cs' : List Char} {ws ws' : List Word}

theorem SpelledBefore.imp {other : List Char → Prop} (h : SpelledBefore follows cs ws)
    (himp : ∀ rest, other rest → follows rest) : SpelledBefore other cs ws :=
  fun rest vs hrest => h rest vs (himp rest hrest)

/-- Texts in a row. -/
theorem SpelledBefore.append {other : List Char → Prop} (h : SpelledBefore follows cs ws)
    (h' : SpelledBefore other cs' ws') (hfollows : ∀ rest, other rest → follows (cs' ++ rest)) :
    SpelledBefore other (cs ++ cs') (ws ++ ws') := by
  intro rest vs hrest hvs
  rw [List.append_assoc, List.map_append, List.append_assoc]
  exact h _ _ (hfollows rest hrest) (h' rest vs hrest hvs)

theorem SpelledBefore.space (h : SpelledBefore follows cs ws) :
    SpelledBefore follows (' ' :: cs) ws :=
  fun rest vs hrest hvs => (h rest vs hrest hvs).space

/-- Texts after one another with a space between them. -/
theorem Spelled.space_append (h : Spelled cs ws) (h' : SpelledBefore follows cs' ws') :
    SpelledBefore follows (cs ++ ' ' :: cs') (ws ++ ws') :=
  h.append h'.space fun _ _ => ends_cons (by decide)

theorem spelled_nil : SpelledBefore follows [] [] := fun _ _ _ h => h

theorem spelled_word {x : String} (hx : isWord x.toList = true) :
    SpelledBefore EndsName x.toList [.ident x] := fun _ _ hrest h => .word hx hrest h

theorem spelled_string (s : String) : SpelledBefore follows (quoteString s.toList) [.str s] :=
  fun _ _ _ h => .string s h

theorem spelled_number (hcs : IsNumeral cs) :
    Spelled cs [⟨.number, String.ofList cs⟩] := fun _ _ hrest h => .number hcs hrest.stops h

/-- Texts with a separator between them. -/
theorem spelled_intercalate {separator : List Char} {kind : TokenKind} {texts : List (List Char)}
    {wss : List (List Word)} (hends : ∀ rest, follows (separator ++ rest))
    (hscan : ∀ rest vs, Scan rest vs → Scan (separator ++ rest) ((false, .sign kind) :: vs))
    (h : List.Forall₂ (SpelledBefore follows) texts wss) :
    SpelledBefore follows (List.intercalate separator texts) (Word.joined (.sign kind) wss) := by
  induction h with
  | nil => exact fun rest vs _ h => h
  | @cons text ws texts wss htext hmore ih =>
    intro rest vs hrest hvs
    cases hmore with
    | nil =>
      rw [List.intercalate_singleton, Word.joined, List.flatMap_nil, List.append_nil]
      exact htext rest vs hrest hvs
    | @cons text' ws' texts wss =>
      rw [List.intercalate_cons_cons, List.append_assoc, List.append_assoc]
      have hwords : (Word.joined (.sign kind) (ws :: ws' :: wss)).map (false, ·) ++ vs =
          ws.map (false, ·) ++ ((false, Word.sign kind) ::
            ((Word.joined (.sign kind) (ws' :: wss)).map (false, ·) ++ vs)) := by
        simp [Word.joined]
      rw [hwords]
      exact htext _ _ (hends _) (hscan _ _ (ih rest vs hrest hvs))

/-- Texts with commas between them. -/
theorem spelled_commas {texts : List (List Char)} {wss : List (List Word)}
    (h : List.Forall₂ Spelled texts wss) :
    Spelled (Expr.commas texts) (Word.joined (.sign .comma) wss) :=
  spelled_intercalate (fun rest => ends_cons (c := ',') (by decide))
    (fun rest vs hvs => Scan.bracket (c := ',') rfl (by decide) hvs.space) h

/-- Names with a sign between them. -/
theorem spelled_names {separator : List Char} {kind : TokenKind} {names : List String}
    (hends : ∀ rest, EndsName (separator ++ rest))
    (hscan : ∀ rest vs, Scan rest vs → Scan (separator ++ rest) ((false, .sign kind) :: vs))
    (h : ∀ x ∈ names, isWord x.toList = true) :
    SpelledBefore EndsName (List.intercalate separator (names.map String.toList))
      (Word.joined (.sign kind) (names.map fun x => [Word.ident x])) := by
  refine spelled_intercalate hends hscan ?_
  rw [List.forall₂_map_left_iff, List.forall₂_map_right_iff, List.forall₂_same]
  exact fun x hx => spelled_word (h x hx)

/-- A text in brackets. -/
theorem Spelled.enclosed {opening closing : Char} {kind kind' : TokenKind} (h : Spelled cs ws)
    (hmem : (opening, closing) ∈ [('(', ')'), ('[', ']')])
    (hopen : Lexeme.singleKind? opening = some kind)
    (hclose : Lexeme.singleKind? closing = some kind') :
    SpelledBefore follows (opening :: cs ++ [closing]) (.sign kind :: (ws ++ [.sign kind'])) := by
  intro rest vs _ hvs
  have hall : ∀ pair ∈ [('(', ')'), ('[', ']')], pair.1 ∉ ['=', '!', '&', '|', ':'] ∧
      pair.2 ∉ ['=', '!', '&', '|', ':'] ∧ pair.2 ∈ [' ', ',', ')', ']', '\n'] := by decide
  obtain ⟨ho, hc, hends⟩ := hall _ hmem
  have hinner := h (closing :: rest) _ (ends_cons hends) (.bracket hclose hc hvs)
  simp only [List.cons_append, List.append_assoc, List.map_cons, List.map_append, List.map_nil,
    List.nil_append]
  exact .bracket hopen ho hinner

/-- A name before a text in brackets. -/
theorem SpelledBefore.append_brackets {opening closing : Char} {kind kind' : TokenKind}
    (h : SpelledBefore EndsName cs ws) (h' : Spelled cs' ws')
    (hmem : (opening, closing) ∈ [('(', ')'), ('[', ']')])
    (hopen : Lexeme.singleKind? opening = some kind)
    (hclose : Lexeme.singleKind? closing = some kind') :
    SpelledBefore follows (cs ++ opening :: cs' ++ [closing])
      (ws ++ .sign kind :: (ws' ++ [.sign kind'])) := by
  have hname : isIdentifierPart opening = false := by
    have hall : ∀ pair ∈ [('(', ')'), ('[', ']')], isIdentifierPart pair.1 = false := by decide
    exact hall _ hmem
  rw [List.append_assoc]
  exact h.append (h'.enclosed hmem hopen hclose) fun _ _ => endsName_cons hname

/-- Texts with commas between them, in braces. -/
theorem spelled_braces {texts : List (List Char)} {wss : List (List Word)}
    (h : List.Forall₂ Spelled texts wss) :
    SpelledBefore follows (Expr.braces texts) (Word.enclosed .lbrace .rbrace wss) := by
  intro rest vs _ hvs
  have hclose : Scan ('}' :: rest) ((false, .sign .rbrace) :: vs) :=
    .bracket rfl (by decide) hvs
  cases h with
  | nil => exact .bracket rfl (by decide) hclose
  | @cons text ws texts wss htext hmore =>
    have hinner := spelled_commas (.cons htext hmore) (' ' :: '}' :: rest) _
      (ends_cons (by decide)) hclose.space
    simp only [Expr.braces, List.cons_append, List.append_assoc, Word.enclosed, List.map_cons,
      List.map_append, List.map_nil, List.nil_append]
    exact .bracket rfl (by decide) hinner.space

end Spelled

end StackScript
