import StackScript.Proofs.Layout.Respacing
import StackScript.Proofs.Spelling.Parts

/-!
# The layout of code

The layout finds objects and their properties by scanning, and never parses. Spelled code has a form
that this scanning takes apart correctly: brackets are closed, commas stand only in brackets, and
what stands in braces are keys and values. By induction on this form the scan finds the outermost
objects and their properties, hence the layout replaces every object by a respaced version of
itself.

## Main definitions

* `Layout.Code`: the form of spelled code.
* `Layout.IsTight`: texts that neither start nor end with a blank.
* `Layout.Enclosed`, `Layout.Kept`, `Layout.Replaced`: what the scans do with a part of a text.

## Main results

* `Layout.splitProperties_bodyText`: the properties of an object are found.
* `Layout.objectSpans_objectText`: an object is found as a whole.
* `Layout.Code.respaced_layoutObjects`: the layout respaces code.
-/

namespace StackScript.Layout

open Text

/-! ### Code -/

/-- Characters of code that need no care: those of names, numbers and operators, and spaces. -/
def isPlain (c : Char) : Bool :=
  isIdentifierPart c || [' ', '.', '-', '=', '!', '&', '|', ':'].contains c

theorem ne_of_isPlain {c d : Char} (hc : isPlain c = true) (hd : isPlain d = false) : c ≠ d := by
  rintro rfl
  exact Bool.false_ne_true (hd.symm.trans hc)

theorem isBlank_eq_false_of_isPlain {c : Char} (hc : isPlain c = true) (hne : c ≠ ' ') :
    isBlank c = false := by
  rw [isPlain, Bool.or_eq_true] at hc
  rcases hc with hc | hc
  · exact isBlank_eq_false_of_isIdentifierPart hc
  · have hsigns : ∀ d ∈ [' ', '.', '-', '=', '!', '&', '|', ':'], d ≠ ' ' → isBlank d = false :=
      forall_mem_of_all (by decide)
    exact hsigns c (by simpa using hc) hne

/-- The characters that open or close something, or start a comment. -/
def delimiters : List Char := ['\'', '"', '{', '}', '[', ']', '(', ')', '#', '/']

theorem notMem_delimiters_of_isPlain {c : Char} (hc : isPlain c = true) : c ∉ delimiters := by
  have hplain : ∀ d ∈ delimiters, isPlain d = false := forall_mem_of_all (by decide)
  exact fun h => ne_of_isPlain hc (hplain c h) rfl

/-- A text that neither starts nor ends with a blank. -/
structure IsTight (text : List Char) : Prop where
  head : ∃ c ∈ text.head?, isBlank c = false
  last : ∃ c ∈ text.getLast?, isBlank c = false

/-- The text of properties, given the texts of their values. -/
def bodyText (fields : List (String × List Char)) : List Char :=
  Expr.commas (fields.map fun field => Expr.fieldText field.1 field.2)

/-- The text of an object, given the texts of its values. -/
def objectText (fields : List (String × List Char)) : List Char :=
  Expr.braces (fields.map fun field => Expr.fieldText field.1 field.2)

/-- The form of spelled code: plain characters, strings, brackets with commas in them, and braces
with properties in them. -/
inductive Code : List Char → Prop
  | nil : Code []
  | plain {c : Char} {rest : List Char} (hc : isPlain c = true) (h : Code rest) : Code (c :: rest)
  | quoted {rest : List Char} (s : String) (h : Code rest) : Code (quoteString s.toList ++ rest)
  | group {brackets : Char × Char} {texts : List (List Char)} {rest : List Char}
      (hb : brackets ∈ [('(', ')'), ('[', ']')]) (ht : ∀ text ∈ texts, Code text) (h : Code rest) :
      Code (brackets.1 :: Expr.commas texts ++ brackets.2 :: rest)
  | object {fields : List (String × List Char)} {rest : List Char}
      (hf : ∀ field ∈ fields, Code field.2) (ht : ∀ field ∈ fields, IsTight field.2)
      (h : Code rest) : Code (objectText fields ++ rest)

theorem Code.append {a b : List Char} (ha : Code a) (hb : Code b) : Code (a ++ b) := by
  induction ha with
  | nil => exact hb
  | plain hc _ ih => exact .plain hc ih
  | quoted s _ ih =>
    rw [List.append_assoc]
    exact .quoted s ih
  | group hbr ht _ _ ih =>
    rw [List.append_assoc]
    exact .group hbr ht ih
  | object hf ht _ _ ih =>
    rw [List.append_assoc]
    exact .object hf ht ih

theorem code_of_all_isPlain {text : List Char} (h : text.all isPlain = true) : Code text := by
  induction text with
  | nil => exact .nil
  | cons c text ih =>
    rw [List.all_cons, Bool.and_eq_true] at h
    exact .plain h.1 (ih h.2)

theorem all_isPlain_of_isWord {text : List Char} (h : isWord text = true) :
    text.all isPlain = true := by
  rw [isWord, Bool.and_eq_true] at h
  refine List.all_eq_true.2 fun c hc => ?_
  rw [isPlain, List.all_eq_true.1 h.1 c hc, Bool.true_or]

theorem code_quoteString (s : String) : Code (quoteString s.toList) := by
  simpa using Code.quoted s .nil

/-! ### Texts without blanks at their ends -/

theorem isTight_singleton {c : Char} (hc : isBlank c = false) : IsTight [c] :=
  ⟨⟨c, rfl, hc⟩, c, rfl, hc⟩

/-- Only the ends of a text matter. -/
theorem IsTight.append {a b : List Char} (ha : IsTight a) (hb : IsTight b) (m : List Char) :
    IsTight (a ++ m ++ b) := by
  obtain ⟨c, hc, hcblank⟩ := ha.head
  obtain ⟨d, hd, hdblank⟩ := hb.last
  refine ⟨⟨c, ?_, hcblank⟩, d, ?_, hdblank⟩
  · rw [List.append_assoc, List.head?_append, Option.mem_def.1 hc]
    rfl
  · rw [List.getLast?_append, Option.mem_def.1 hd]
    rfl

theorem isTight_of_isWord {text : List Char} (h : isWord text = true) : IsTight text := by
  rw [isWord, Bool.and_eq_true, List.all_eq_true, List.any_eq_true] at h
  have hne : text ≠ [] := by
    rintro rfl
    simp at h
  have hink (c : Char) (hc : c ∈ text) : isBlank c = false :=
    isBlank_eq_false_of_isIdentifierPart (h.1 c hc)
  exact ⟨⟨_, List.head?_eq_some_head hne, hink _ (List.head_mem hne)⟩, _,
    List.getLast?_eq_some_getLast hne, hink _ (List.getLast_mem hne)⟩

theorem isTight_quoteString (s : List Char) : IsTight (quoteString s) :=
  IsTight.append (isTight_singleton (by decide)) (isTight_singleton (by decide)) _

theorem isTight_spellKey (key : List Char) : IsTight (spellKey key) := by
  unfold spellKey
  split_ifs with h
  · exact isTight_of_isWord (isWord_of_isIdentifier h)
  · exact isTight_quoteString key

private theorem dropWhile_isBlank {text : List Char} (h : ∃ c ∈ text.head?, isBlank c = false) :
    text.dropWhile isBlank = text := by
  obtain ⟨c, hc, hblank⟩ := h
  obtain ⟨rest, rfl⟩ := List.head?_eq_some_iff.1 hc
  rw [List.dropWhile_cons_of_neg (by simp [hblank])]

/-- Blanks around a tight text are removed, and nothing else is. -/
theorem IsTight.trim_eq {text : List Char} (h : IsTight text) (before after : List Char)
    (hb : ∀ c ∈ before, isBlank c = true) (ha : ∀ c ∈ after, isBlank c = true) :
    trim (before ++ text ++ after) = text := by
  have hstart : trimStart (before ++ text ++ after) = text ++ after := by
    rw [trimStart, List.append_assoc, List.dropWhile_append_of_pos hb]
    refine dropWhile_isBlank ?_
    obtain ⟨c, hc, hblank⟩ := h.head
    refine ⟨c, ?_, hblank⟩
    rw [List.head?_append, Option.mem_def.1 hc]
    rfl
  have hend : (text ++ after).reverse.dropWhile isBlank = text.reverse := by
    rw [List.reverse_append, List.dropWhile_append_of_pos (by simpa using ha)]
    refine dropWhile_isBlank ?_
    rw [List.head?_reverse]
    exact h.last
  rw [trim, hstart, trimEnd, hend, List.reverse_reverse]

/-! ### Marks -/

theorem mark_cons {c : Char} (hc : c ≠ '\'' ∧ c ≠ '"') (text : List Char) :
    mark (c :: text) = (c, false) :: mark text := by
  rw [mark, markFrom, if_neg (by simpa using hc)]
  rfl

theorem mark_cons_of_notMem {c : Char} (hc : c ∉ delimiters) (text : List Char) :
    mark (c :: text) = (c, false) :: mark text := by
  refine mark_cons ⟨?_, ?_⟩ text <;> rintro rfl <;> exact hc (by decide)

private theorem markFrom_flatMap_escapeChar (cs text : List Char) :
    markFrom (some '\'') false (cs.flatMap escapeChar ++ '\'' :: text) =
      (cs.flatMap escapeChar ++ ['\'']).map (·, true) ++ mark text := by
  induction cs with
  | nil => simp [markFrom, mark]
  | cons c cs ih =>
    rw [List.flatMap_cons, List.append_assoc, List.append_assoc, List.map_append, List.append_assoc,
      ← ih]
    obtain ⟨letter, hescape, -⟩ | ⟨hescape, hback, hquote, -⟩ := Lexeme.escapeChar_cases c
    · simp [hescape, markFrom]
    · simp [hescape, markFrom, hback, hquote]

/-- Everything in a string is marked. -/
theorem mark_quoteString (cs text : List Char) :
    mark (quoteString cs ++ text) = (quoteString cs).map (·, true) ++ mark text := by
  simpa [quoteString, mark, markFrom] using markFrom_flatMap_escapeChar cs text

/-! ### Nesting -/

/-- The pairs of brackets. -/
def brackets : List (Char × Char) := [('(', ')'), ('[', ']'), ('{', '}')]

/-- Texts in which all brackets and quotes are closed, whatever stands between them. -/
inductive Nested : List Char → Prop
  | nil : Nested []
  | char {c : Char} {rest : List Char} (hc : c ∉ delimiters) (h : Nested rest) : Nested (c :: rest)
  | quoted {rest : List Char} (s : String) (h : Nested rest) : Nested (quoteString s.toList ++ rest)
  | bracket {l r : Char} {inner rest : List Char} (hb : (l, r) ∈ brackets) (hi : Nested inner)
      (h : Nested rest) : Nested (l :: inner ++ r :: rest)

namespace Nested

theorem append {a b : List Char} (ha : Nested a) (hb : Nested b) : Nested (a ++ b) := by
  induction ha with
  | nil => exact hb
  | char hc _ ih => exact .char hc ih
  | quoted s _ ih =>
    rw [List.append_assoc]
    exact .quoted s ih
  | bracket hbr hi _ _ ih =>
    rw [List.append_assoc]
    exact .bracket hbr hi ih

theorem commas {texts : List (List Char)} (h : ∀ text ∈ texts, Nested text) :
    Nested (Expr.commas texts) := by
  induction texts with
  | nil => exact .nil
  | cons text texts ih =>
    rw [List.forall_mem_cons] at h
    cases texts with
    | nil => simpa [Expr.commas] using h.1
    | cons text' texts =>
      have hcomma : Nested [',', ' '] := .char (by decide) (.char (by decide) .nil)
      rw [Expr.commas, List.intercalate_cons_cons]
      exact (h.1.append hcomma).append (ih h.2)

private theorem of_all_isPlain {a : List Char} (h : a.all isPlain = true) : Nested a := by
  induction a with
  | nil => exact .nil
  | cons c a ih =>
    rw [List.all_cons, Bool.and_eq_true] at h
    exact .char (notMem_delimiters_of_isPlain h.1) (ih h.2)

theorem key (key : String) : Nested (spellKey key.toList) := by
  unfold spellKey
  split_ifs with h
  · exact of_all_isPlain (all_isPlain_of_isWord (isWord_of_isIdentifier h))
  · simpa using Nested.quoted key .nil

end Nested

/-- What stands between the braces of an object. -/
def inBraces (fields : List (String × List Char)) : List Char :=
  if fields = [] then [] else ' ' :: bodyText fields ++ [' ']

theorem objectText_eq (fields : List (String × List Char)) :
    objectText fields = '{' :: inBraces fields ++ ['}'] := by
  cases fields with
  | nil => rfl
  | cons field fields => simp [objectText, Expr.braces, inBraces, bodyText]

theorem nested_inBraces {fields : List (String × List Char)}
    (h : ∀ field ∈ fields, Nested field.2) : Nested (inBraces fields) := by
  unfold inBraces
  split_ifs
  · exact .nil
  · refine .append (.char (by decide) (.commas (List.forall_mem_map.2 fun field hf => ?_)))
      (.char (by decide) .nil)
    exact (Nested.key _).append (.char (by decide) (.char (by decide) (h field hf)))

theorem Code.nested {a : List Char} (h : Code a) : Nested a := by
  induction h with
  | nil => exact .nil
  | plain hc _ ih => exact .char (notMem_delimiters_of_isPlain hc) ih
  | quoted s _ ih => exact .quoted s ih
  | group hb _ _ iht ih => exact .bracket (by grind [brackets]) (.commas iht) ih
  | object _ _ _ ihf ih =>
    rw [objectText_eq, List.append_assoc]
    exact .bracket (by decide) (nested_inBraces ihf) ih

/-! ### Properties -/

/-- The scan for properties only collects a text, in a depth of brackets and after a key. -/
def Kept (depth : Int) (key : Option (List Char)) (a : List Char) : Prop :=
  ∀ chunk text, propertiesFrom depth key chunk (mark (a ++ text)) =
    propertiesFrom depth key (a.reverse ++ chunk) (mark text)

namespace Kept

variable {depth : Int} {key : Option (List Char)} {a b : List Char}

theorem nil : Kept depth key [] := fun _ _ => rfl

theorem append (ha : Kept depth key a) (hb : Kept depth key b) : Kept depth key (a ++ b) := by
  intro chunk text
  rw [List.append_assoc, ha, hb, List.reverse_append, List.append_assoc]

/-- A character that opens and closes nothing: at the outermost depth a comma ends a property, and
a colon ends a key. -/
theorem char {c : Char} (hc : c ∉ delimiters)
    (hdepth : depth ≠ 0 ∨ c ≠ ',' ∧ (c ≠ ':' ∨ key.isSome = true)) : Kept depth key [c] := by
  intro chunk text
  have hbracket : isOpener c = false ∧ isCloser c = false := by
    simp only [delimiters, List.mem_cons, not_or] at hc
    simp [isOpener, isCloser, hc]
  have hcolon : (depth == 0 && c == ':' && key.isNone) = false := by
    cases key <;> grind
  have hcomma : (depth == 0 && c == ',') = false := by
    grind
  rw [List.singleton_append, mark_cons_of_notMem hc, propertiesFrom, if_neg Bool.false_ne_true,
    if_neg (by simp [hbracket.1]), if_neg (by simp [hbracket.2]), if_neg (by simp [hcolon]),
    if_neg (by simp [hcomma])]
  rfl

theorem of_chars (h : ∀ c ∈ a, Kept depth key [c]) : Kept depth key a := by
  induction a with
  | nil => exact nil
  | cons c a ih =>
    rw [List.forall_mem_cons] at h
    exact h.1.append (ih h.2)

theorem string (s : List Char) : Kept depth key (quoteString s) := by
  intro chunk text
  rw [mark_quoteString]
  induction quoteString s generalizing chunk with
  | nil => rfl
  | cons c cs ih =>
    rw [List.map_cons, List.cons_append, propertiesFrom, if_pos rfl, ih]
    simp

/-- A text in brackets, which is one level further in. -/
theorem bracket {l r : Char} (hb : (l, r) ∈ brackets) (h : Kept (depth + 1) key a) :
    Kept depth key (l :: a ++ [r]) := by
  have hsigns : ∀ b ∈ brackets, (b.1 ≠ '\'' ∧ b.1 ≠ '"') ∧ (b.2 ≠ '\'' ∧ b.2 ≠ '"') ∧
      isOpener b.1 = true ∧ isOpener b.2 = false ∧ isCloser b.2 = true := by decide
  obtain ⟨hl, hr, hopen, hclose, hcloser⟩ := hsigns _ hb
  intro chunk text
  rw [List.append_assoc, List.cons_append, mark_cons hl, propertiesFrom,
    if_neg Bool.false_ne_true, if_pos hopen, h, List.singleton_append, mark_cons hr,
    propertiesFrom, if_neg Bool.false_ne_true, if_neg (by simp [hclose]), if_pos hcloser]
  simp

end Kept

/-- Inside brackets everything is collected. -/
theorem Nested.kept {a : List Char} (h : Nested a) {depth : Int} (hdepth : 0 < depth)
    (key : Option (List Char)) : Kept depth key a := by
  induction h generalizing depth with
  | nil => exact .nil
  | @char c rest hc _ ih => exact .append (a := [c]) (.char hc (.inl hdepth.ne')) (ih hdepth)
  | quoted s _ ih => exact (Kept.string _).append (ih hdepth)
  | @bracket l r inner rest hb _ _ ihi ih =>
    rw [List.append_cons]
    exact (Kept.bracket hb (ihi (by omega))).append (ih hdepth)

/-- After its key the code of a value is collected as a whole. -/
theorem Code.kept {a : List Char} (h : Code a) (key : List Char) : Kept 0 (some key) a := by
  induction h with
  | nil => exact .nil
  | @plain c rest hc _ ih =>
    refine .append (a := [c]) (.char (notMem_delimiters_of_isPlain hc) (.inr ⟨?_, .inr rfl⟩)) ih
    exact ne_of_isPlain hc (by decide)
  | quoted s _ ih => exact (Kept.string _).append ih
  | group hb ht _ _ ih =>
    rw [List.append_cons]
    exact (Kept.bracket (by grind [brackets])
      ((Nested.commas fun text h => (ht text h).nested).kept (by omega) _)).append ih
  | object hf _ _ _ ih =>
    rw [objectText_eq]
    exact (Kept.bracket (by decide)
      ((nested_inBraces fun field h => (hf field h).nested).kept (by omega) _)).append ih

theorem kept_spellKey (key : String) : Kept 0 none (spellKey key.toList) := by
  unfold spellKey
  split_ifs with h
  · have hword := isWord_of_isIdentifier h
    rw [isWord, Bool.and_eq_true, List.all_eq_true] at hword
    refine .of_chars fun c hc => ?_
    have hsigns : ∀ d ∈ ',' :: ':' :: delimiters, isIdentifierPart d = false :=
      forall_mem_of_all (by decide)
    have hne : c ∉ ',' :: ':' :: delimiters := fun h =>
      Bool.false_ne_true ((hsigns c h).symm.trans (hword.1 c hc))
    rw [List.mem_cons, List.mem_cons, not_or, not_or] at hne
    exact .char hne.2.2 (.inr ⟨hne.1, .inl hne.2.1⟩)
  · exact .string _

private theorem propertiesFrom_fieldText {key : String} {text : List Char} (hcode : Code text)
    {chunk : List Char} (hchunk : ∀ c ∈ chunk, isBlank c = true) (rest : List Char) :
    propertiesFrom 0 none chunk (mark (Expr.fieldText key text ++ rest)) =
      propertiesFrom 0 (some (spellKey key.toList)) (text.reverse ++ [' ']) (mark rest) := by
  have hkey : trim ((spellKey key.toList).reverse ++ chunk).reverse = spellKey key.toList := by
    simpa using (isTight_spellKey key.toList).trim_eq chunk.reverse [] (by simpa using hchunk)
      (by simp)
  have hspace : Kept 0 (some (spellKey key.toList)) [' '] :=
    .char (by decide) (.inr ⟨by decide, .inr rfl⟩)
  calc propertiesFrom 0 none chunk (mark (Expr.fieldText key text ++ rest))
    _ = propertiesFrom 0 none ((spellKey key.toList).reverse ++ chunk)
          (mark (':' :: ' ' :: text ++ rest)) := by
      rw [Expr.fieldText, List.append_assoc, kept_spellKey]
    _ = propertiesFrom 0 (some (spellKey key.toList)) [] (mark ([' '] ++ (text ++ rest))) := by
      rw [List.cons_append, mark_cons (by decide), propertiesFrom, hkey]
      rfl
    _ = _ := by
      rw [hspace, hcode.kept]
      simp

private theorem propertiesFrom_comma (key chunk text : List Char) :
    propertiesFrom 0 (some key) chunk (mark (',' :: text)) = do
      let first ← closeChunk (some key) chunk
      return first ++ (← propertiesFrom 0 none [] (mark text)) := by
  rw [mark_cons (by decide)]
  rfl

private theorem closeChunk_value {text : List Char} (h : IsTight text) (key : List Char) :
    closeChunk (some key) (text.reverse ++ [' ']) = some [(key, text)] := by
  have hvalue : trim (text.reverse ++ [' ']).reverse = text := by
    simpa using h.trim_eq [' '] [] (forall_mem_of_all (by decide)) (by simp)
  rw [closeChunk, hvalue]

private theorem propertiesFrom_bodyText {fields : List (String × List Char)} (hne : fields ≠ [])
    (hcode : ∀ field ∈ fields, Code field.2) (htight : ∀ field ∈ fields, IsTight field.2)
    {chunk : List Char} (hchunk : ∀ c ∈ chunk, isBlank c = true) :
    propertiesFrom 0 none chunk (mark (bodyText fields)) =
      some (fields.map fun field => (spellKey field.1.toList, field.2)) := by
  induction fields generalizing chunk with
  | nil => exact absurd rfl hne
  | cons field fields ih =>
    rw [List.forall_mem_cons] at hcode htight
    have hlast := closeChunk_value htight.1 (spellKey field.1.toList)
    cases fields with
    | nil =>
      rw [bodyText, List.map_singleton, Expr.commas, List.intercalate_singleton,
        ← List.append_nil (Expr.fieldText ..), propertiesFrom_fieldText hcode.1 hchunk]
      exact hlast
    | cons field' fields =>
      have hspace : Kept 0 none [' '] := .char (by decide) (by decide)
      have hblank : ∀ c ∈ [' '].reverse ++ [], isBlank c = true := forall_mem_of_all (by decide)
      have hrest := ih (by simp) hcode.2 htight.2 hblank
      rw [← hspace] at hrest
      rw [bodyText, List.map_cons, List.map_cons, Expr.commas, List.intercalate_cons_cons,
        List.append_assoc, propertiesFrom_fieldText hcode.1 hchunk, List.cons_append,
        propertiesFrom_comma, hlast]
      exact congrArg (Option.bind · fun rest => some ([(spellKey field.1.toList, field.2)] ++ rest))
        hrest

/-- The properties of an object are found. -/
theorem splitProperties_bodyText {fields : List (String × List Char)} (hne : fields ≠ [])
    (hcode : ∀ field ∈ fields, Code field.2) (htight : ∀ field ∈ fields, IsTight field.2) :
    splitProperties (bodyText fields) =
      some (fields.map fun field => (spellKey field.1.toList, field.2)) :=
  propertiesFrom_bodyText hne hcode htight (by simp)

/-! ### Objects -/

private theorem spansFrom_lbrace (index depth start : Nat) (text : List Char) :
    spansFrom index depth start (mark ('{' :: text)) =
      spansFrom (index + 1) (depth + 1) (if depth = 0 then index else start) (mark text) := by
  rw [mark_cons (by decide)]
  rfl

private theorem spansFrom_rbrace (index depth start : Nat) (text : List Char) :
    spansFrom index (depth + 1) start (mark ('}' :: text)) =
      if depth = 0 then (start, index + 1) :: spansFrom (index + 1) 0 start (mark text)
      else spansFrom (index + 1) depth start (mark text) := by
  rw [mark_cons (by decide)]
  simp [spansFrom]

/-- Inside an object the scan for objects passes over a text. -/
def Enclosed (a : List Char) : Prop :=
  ∀ index depth start text, 0 < depth →
    spansFrom index depth start (mark (a ++ text)) =
      spansFrom (index + a.length) depth start (mark text)

namespace Enclosed

variable {a b : List Char}

theorem append (ha : Enclosed a) (hb : Enclosed b) : Enclosed (a ++ b) := by
  intro index depth start text hdepth
  rw [List.append_assoc, ha _ _ _ _ hdepth, hb _ _ _ _ hdepth, List.length_append, Nat.add_assoc]

theorem char {c : Char} (hquote : c ≠ '\'' ∧ c ≠ '"') (hbrace : c ≠ '{' ∧ c ≠ '}') :
    Enclosed [c] := by
  intro index depth start text _
  rw [List.singleton_append, mark_cons hquote, spansFrom]
  simp [hbrace]

theorem braces (h : Enclosed a) : Enclosed ('{' :: a ++ ['}']) := by
  intro index depth start text hdepth
  rw [List.append_assoc, List.cons_append, spansFrom_lbrace, h _ _ _ _ (by omega),
    List.singleton_append, spansFrom_rbrace, if_neg (by omega), if_neg (by omega)]
  congr 1
  simp
  omega

end Enclosed

private theorem spansFrom_quoteString (cs : List Char) (index depth start : Nat)
    (text : List Char) :
    spansFrom index depth start (mark (quoteString cs ++ text)) =
      spansFrom (index + (quoteString cs).length) depth start (mark text) := by
  rw [mark_quoteString]
  induction quoteString cs generalizing index with
  | nil => rfl
  | cons c cs ih =>
    rw [List.map_cons, List.cons_append, spansFrom, if_pos rfl, ih, List.length_cons]
    congr 1
    omega

theorem Nested.enclosed {a : List Char} (h : Nested a) : Enclosed a := by
  induction h with
  | nil => exact fun _ _ _ _ _ => rfl
  | @char c rest hc _ ih =>
    simp only [delimiters, List.mem_cons, not_or] at hc
    exact .append (a := [c]) (.char ⟨hc.1, hc.2.1⟩ ⟨hc.2.2.1, hc.2.2.2.1⟩) ih
  | quoted s _ ih => exact .append (fun _ _ _ _ _ => spansFrom_quoteString ..) ih
  | @bracket l r inner rest hb _ _ ihi ih =>
    have hbrackets : ∀ b ∈ brackets, b = ('{', '}') ∨
        ((b.1 ≠ '\'' ∧ b.1 ≠ '"') ∧ b.1 ≠ '{' ∧ b.1 ≠ '}') ∧
          (b.2 ≠ '\'' ∧ b.2 ≠ '"') ∧ b.2 ≠ '{' ∧ b.2 ≠ '}' := by decide
    rw [List.append_cons]
    refine .append ?_ ih
    rcases hbrackets _ hb with hbrace | ⟨hl, hr⟩
    · obtain ⟨rfl, rfl⟩ := Prod.mk.inj hbrace
      exact .braces ihi
    · exact .append (.append (a := [l]) (.char hl.1 hl.2) ihi) (.char hr.1 hr.2)

/-- Where the scan starts outside objects, the start of the last object does not matter. -/
private theorem spansFrom_start (index start start' : Nat) (marks : List (Char × Bool)) :
    spansFrom index 0 start marks = spansFrom index 0 start' marks := by
  induction marks generalizing index with
  | nil => rfl
  | cons m marks ih =>
    simp only [spansFrom, ih, if_true, Nat.lt_irrefl, decide_false, Bool.and_false,
      Bool.false_eq_true, if_false]

/-- An outermost object is one span. -/
theorem Enclosed.spansFrom_braces {a : List Char} (h : Enclosed a) (index start : Nat)
    (text : List Char) :
    spansFrom index 0 start (mark (('{' :: a ++ ['}']) ++ text)) =
      (index, index + ('{' :: a ++ ['}']).length) ::
        spansFrom (index + ('{' :: a ++ ['}']).length) 0 start (mark text) := by
  rw [List.append_assoc, List.cons_append, spansFrom_lbrace, h _ _ _ _ (by omega),
    List.singleton_append, spansFrom_rbrace, if_pos rfl, if_pos rfl, spansFrom_start _ index start]
  simp [Nat.add_assoc, Nat.add_comm 1]

/-- The text of an object is one span. -/
theorem objectSpans_objectText {fields : List (String × List Char)}
    (hcode : ∀ field ∈ fields, Code field.2) :
    objectSpans (objectText fields) = [(0, (objectText fields).length)] := by
  have hinside := (nested_inBraces fun field hf => (hcode field hf).nested).enclosed
  simpa [objectSpans, objectText_eq, mark, markFrom, spansFrom] using
    hinside.spansFrom_braces 0 0 []

/-- The next span starts where its object starts, outside objects not before what comes next, and
ends after what was passed. -/
private theorem bounds_of_spansFrom {index depth start : Nat} {marks : List (Char × Bool)}
    {span : Nat × Nat} (h : span ∈ (spansFrom index depth start marks).head?) :
    (depth = 0 → index ≤ span.1) ∧ (depth ≠ 0 → span.1 = start) ∧ index < span.2 := by
  induction marks generalizing index depth start with
  | nil => cases h
  | cons m marks ih =>
    rw [spansFrom] at h
    split_ifs at h with hquoted hopen hout hclose hlast
    -- The brace that closes the outermost object is the only place where a span comes out.
    pick_goal 4
    · obtain rfl := Option.some.inj h
      exact ⟨fun h0 => absurd (hlast.symm.trans h0) one_ne_zero, fun _ => rfl, index.lt_succ_self⟩
    all_goals
      have := ih h
      omega

/-- What stands before the next span is copied. -/
private theorem mapSpans_append {f : List Char → List Char} {index : Nat} {a text : List Char}
    {spans : List (Nat × Nat)}
    (h : ∀ span ∈ spans.head?, index + a.length ≤ span.1 ∧ index + a.length ≤ span.2) :
    mapSpans f index (a ++ text) spans = a ++ mapSpans f (index + a.length) text spans := by
  cases spans with
  | nil => rfl
  | cons span spans =>
    obtain ⟨start, stop⟩ := span
    obtain ⟨hstart, hstop⟩ := h _ rfl
    have hskip {n : Nat} (hn : index + a.length ≤ n) :
        n - index = a.length + (n - (index + a.length)) := by
      omega
    rw [mapSpans, mapSpans, hskip hstart, hskip hstop]
    simp [List.take_length_add_append, List.drop_length_add_append]

/-- A text with its outermost objects replaced, before any other text. -/
def Replaced (f : List Char → List Char) (a b : List Char) : Prop :=
  ∀ index start text,
    mapSpans f index (a ++ text) (spansFrom index 0 start (mark (a ++ text))) =
      b ++ mapSpans f (index + a.length) text (spansFrom (index + a.length) 0 start (mark text))

namespace Replaced

variable {f : List Char → List Char} {a b a' b' : List Char}

theorem nil : Replaced f [] [] := fun _ _ _ => rfl

theorem append (h : Replaced f a b) (h' : Replaced f a' b') : Replaced f (a ++ a') (b ++ b') := by
  intro index start text
  rw [List.append_assoc, h, h', List.append_assoc, List.length_append, Nat.add_assoc]

/-- A text outside objects that holds none is kept. -/
private theorem of_passed (h : ∀ index start text, spansFrom index 0 start (mark (a ++ text)) =
    spansFrom (index + a.length) 0 start (mark text)) : Replaced f a a := by
  intro index start text
  rw [h]
  refine mapSpans_append fun span hspan => ?_
  have := bounds_of_spansFrom hspan
  omega

theorem char {c : Char} (hquote : c ≠ '\'' ∧ c ≠ '"') (hbrace : c ≠ '{' ∧ c ≠ '}') :
    Replaced f [c] [c] := by
  refine of_passed fun index start text => ?_
  rw [List.singleton_append, mark_cons hquote, spansFrom]
  simp [hbrace]

theorem string (s : List Char) : Replaced f (quoteString s) (quoteString s) :=
  of_passed fun _ _ _ => spansFrom_quoteString ..

/-- An outermost object is replaced as a whole. -/
theorem braces (h : Enclosed a) :
    Replaced f ('{' :: a ++ ['}']) (f ('{' :: a ++ ['}'])) := by
  intro index start text
  rw [h.spansFrom_braces, mapSpans, Nat.sub_self, Nat.add_sub_cancel_left, List.take_zero,
    List.drop_zero, List.take_left, List.drop_left, List.nil_append]

end Replaced

/-! ### Respaced code -/

/-- A text is a respaced version of itself. -/
theorem Nested.respaced {a : List Char} (h : Nested a) : Respaced false a a := by
  induction h with
  | nil => exact .nil
  | @char c rest hc _ ih =>
    cases hblank : isBlank c with
    | true => exact .blank hblank ih
    | false =>
      have hsigns : ∀ d ∈ ['\'', '"', '#', '/'], d ∈ delimiters := forall_mem_of_all (by decide)
      exact .code hblank (fun hsign => hc (hsigns c hsign)) (ih.anywhere _)
  | quoted s _ ih => exact .quoted s ih
  | @bracket l r inner rest hb _ _ ihi ih =>
    have hsigns : ∀ b ∈ brackets, (isBlank b.1 = false ∧ b.1 ∉ ['\'', '"', '#', '/']) ∧
        isBlank b.2 = false ∧ b.2 ∉ ['\'', '"', '#', '/'] := by decide
    obtain ⟨hl, hr⟩ := hsigns _ hb
    exact .code hl.1 hl.2 ((ihi.append (.code hr.1 hr.2 (ih.anywhere _))).anywhere _)

section Objects

variable {fields : List (String × List Char)}

theorem respaced_fieldText (key : String) {text text' : List Char}
    (h : Respaced false text text') :
    Respaced false (Expr.fieldText key text) (spellKey key.toList ++ ':' :: ' ' :: text') :=
  (Nested.key key).respaced.append (.code (by decide) (by decide) (.blank (by decide) h))

/-- Properties in a block: each space after a brace or a comma has become a new line with blanks. -/
private theorem respaced_block {indent depth : Int} {inner : List Char → List Char}
    (hne : fields ≠ []) (h : ∀ field ∈ fields, Respaced false field.2 (inner field.2)) :
    Respaced true (' ' :: bodyText fields ++ [' ', '}'])
      ('\n' :: List.intercalate [',', '\n'] (fields.map fun field =>
          blanks (indent * (depth + 1)) ++ spellKey field.1.toList ++
            ':' :: ' ' :: inner field.2) ++
        '\n' :: blanks (indent * depth) ++ ['}']) := by
  have hgap (width : Int) : ∀ c ∈ '\n' :: blanks width, isBlank c = true :=
    List.forall_mem_cons.2 ⟨by decide, fun c => isBlank_of_mem_blanks⟩
  induction fields with
  | nil => exact absurd rfl hne
  | cons field fields ih =>
    rw [List.forall_mem_cons] at h
    -- What follows the first property: the end of the block, or a comma and the other ones.
    have hfirst {a b : List Char} (hrest : Respaced false a b) :=
      Respaced.gap (hgap (indent * (depth + 1)))
        (((respaced_fieldText field.1 h.1).append hrest).anywhere true)
    cases fields with
    | nil =>
      have hclose : Respaced false [' ', '}'] ('\n' :: blanks (indent * depth) ++ ['}']) :=
        .close (hgap _) (by simp) .nil
      simpa [bodyText, Expr.commas] using hfirst hclose
    | cons field' fields =>
      have hothers := hfirst (.code (c := ',') (by decide) (by decide) (ih (by simp) h.2))
      simpa [bodyText, Expr.commas] using hothers

private theorem isTight_bodyText (hne : fields ≠ []) (h : ∀ field ∈ fields, IsTight field.2) :
    IsTight (bodyText fields) := by
  induction fields with
  | nil => exact absurd rfl hne
  | cons field fields ih =>
    rw [List.forall_mem_cons] at h
    have hfield := (isTight_spellKey field.1.toList).append h.1 [':', ' ']
    cases fields with
    | nil => simpa [bodyText, Expr.commas, Expr.fieldText] using hfield
    | cons field' fields =>
      simpa [bodyText, Expr.commas, Expr.fieldText] using
        hfield.append (ih (by simp) h.2) [',', ' ']

/-- What stands between the braces of an object is the text of its properties, blanks apart. -/
theorem trim_inBraces (hne : fields ≠ []) (h : ∀ field ∈ fields, IsTight field.2) :
    trim (inBraces fields) = bodyText fields := by
  rw [inBraces, if_neg hne]
  exact (isTight_bodyText hne h).trim_eq [' '] [' '] (forall_mem_of_all (by decide))
    (forall_mem_of_all (by decide))

/-- The layout of an object is a respaced version of it. -/
theorem respaced_layoutObject {indent depth : Int} {inner : List Char → List Char}
    (hcode : ∀ field ∈ fields, Code field.2) (htight : ∀ field ∈ fields, IsTight field.2)
    (hinner : ∀ field ∈ fields, Respaced false field.2 (inner field.2)) :
    Respaced false (objectText fields) (layoutObject indent depth inner (objectText fields)) := by
  have hsame : Respaced false (objectText fields) (objectText fields) := by
    have := Code.object hcode htight .nil
    rw [List.append_nil] at this
    exact this.nested.respaced
  by_cases hne : fields = []
  · subst hne
    exact hsame
  have hcontent : trim (((objectText fields).drop 1).dropLast) = bodyText fields := by
    rw [objectText_eq, List.cons_append, List.drop_one, List.tail_cons, List.dropLast_concat]
    exact trim_inBraces hne htight
  have hempty : (bodyText fields).isEmpty = false := by
    obtain ⟨c, hc, -⟩ := (isTight_bodyText hne htight).head
    cases htext : bodyText fields with
    | nil => simp [htext] at hc
    | cons => rfl
  have hobject : objectText fields = '{' :: (' ' :: bodyText fields ++ [' ', '}']) := by
    rw [objectText_eq, inBraces, if_neg hne]
    simp
  rw [layoutObject, hcontent, hempty, splitProperties_bodyText hne hcode htight]
  dsimp only
  rw [if_neg Bool.false_ne_true]
  split_ifs
  · exact hsame
  · have hline : oneLine (fields.map fun field => (spellKey field.1.toList, field.2)) =
        bodyText fields := by
      rw [oneLine, List.map_map]
      rfl
    rw [hline]
    exact hobject ▸ hsame
  · rw [hobject, List.map_map]
    exact .code (by decide) (by decide) (respaced_block hne hinner)

end Objects

/-! ### The layout of code -/

section Reflowing

variable {f : List Char → List Char} {a b : List Char}

/-- Replacing the outermost objects of a text respaces it. -/
private def Reflowed (f : List Char → List Char) (a : List Char) : Prop :=
  ∃ b, Replaced f a b ∧ Respaced false a b

private theorem Reflowed.append (ha : Reflowed f a) (hb : Reflowed f b) : Reflowed f (a ++ b) := by
  obtain ⟨a', ha, ha'⟩ := ha
  obtain ⟨b', hb, hb'⟩ := hb
  exact ⟨a' ++ b', ha.append hb, ha'.append hb'⟩

/-- A character that is neither a quote nor a brace. -/
private theorem Reflowed.char {c : Char} (hc : c ∉ ['\'', '"', '#', '/', '{', '}']) :
    Reflowed f [c] := by
  simp only [List.mem_cons, not_or] at hc
  refine ⟨[c], .char ⟨hc.1, hc.2.1⟩ ⟨hc.2.2.2.2.1, hc.2.2.2.2.2.1⟩, ?_⟩
  cases hblank : isBlank c with
  | true => exact .blank hblank .nil
  | false => exact .code hblank (by simp [hc]) .nil

private theorem Reflowed.commas {texts : List (List Char)} (h : ∀ text ∈ texts, Reflowed f text) :
    Reflowed f (Expr.commas texts) := by
  induction texts with
  | nil => exact ⟨[], .nil, .nil⟩
  | cons text texts ih =>
    rw [List.forall_mem_cons] at h
    cases texts with
    | nil => simpa [Expr.commas] using h.1
    | cons text' texts =>
      have hcomma : Reflowed f [',', ' '] :=
        .append (a := [',']) (.char (by decide)) (.char (by decide))
      rw [Expr.commas, List.intercalate_cons_cons]
      exact (h.1.append hcomma).append (ih h.2)

/-- Where each object is replaced by a respaced version, code is respaced. -/
private theorem Code.reflowed (h : Code a)
    (hf : ∀ fields : List (String × List Char), (∀ field ∈ fields, Code field.2) →
      (∀ field ∈ fields, IsTight field.2) →
      Respaced false (objectText fields) (f (objectText fields))) : Reflowed f a := by
  induction h with
  | nil => exact ⟨[], .nil, .nil⟩
  | @plain c rest hc _ ih =>
    have hsigns : ∀ d ∈ ['\'', '"', '#', '/', '{', '}'], isPlain d = false :=
      forall_mem_of_all (by decide)
    exact .append (a := [c]) (.char fun hd => ne_of_isPlain hc (hsigns c hd) rfl) ih
  | quoted s _ ih => exact .append ⟨_, .string _, (code_quoteString s).nested.respaced⟩ ih
  | @group pair texts rest hb _ _ iht ih =>
    have hsigns : ∀ b ∈ [('(', ')'), ('[', ']')],
        b.1 ∉ ['\'', '"', '#', '/', '{', '}'] ∧
          b.2 ∉ ['\'', '"', '#', '/', '{', '}'] := by decide
    obtain ⟨hl, hr⟩ := hsigns pair hb
    rw [List.append_cons]
    exact .append (.append (.append (a := [pair.1]) (.char hl) (.commas iht)) (.char hr)) ih
  | @object fields rest hcode htight _ _ ih =>
    have hinside := (nested_inBraces fun field h => (hcode field h).nested).enclosed
    refine .append ⟨_, ?_, hf fields hcode htight⟩ ih
    rw [objectText_eq]
    exact .braces hinside

end Reflowing

/-- The layout respaces code, to whatever number of levels it goes. -/
theorem Code.respaced_layoutLevels {a : List Char} (h : Code a) (indent : Int) (levels : Nat)
    (depth : Int) : Respaced false a (layoutLevels indent levels depth a) := by
  induction levels generalizing a depth with
  | zero => exact h.nested.respaced
  | succ levels ih =>
    obtain ⟨b, hreplaced, hrespaced⟩ := h.reflowed fun fields hcode htight =>
      respaced_layoutObject hcode htight fun field hfield => ih (hcode field hfield) (depth + 1)
    have hb := hreplaced 0 0 []
    rw [List.append_nil] at hb
    rw [layoutLevels, objectSpans, hb]
    simpa [mark, markFrom, spansFrom, mapSpans] using hrespaced

/-- The layout respaces code. -/
theorem Code.respaced_layoutObjects {a : List Char} (h : Code a) (indent depth : Int) :
    Respaced false a (layoutObjects indent depth a) :=
  h.respaced_layoutLevels indent a.length depth

end StackScript.Layout
