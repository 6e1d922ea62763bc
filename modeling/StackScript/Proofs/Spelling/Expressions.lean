import StackScript.Proofs.Grammar.Declarations
import StackScript.Proofs.Number.Display
import StackScript.Proofs.Spelling.Words
import StackScript.Proofs.Text.Split

/-!
# Expressions are read back from their spelling

Every readable expression has a spelling, which consists of words that the grammar derives the
expression from, so that the rule for its place reads it back. The proof is by induction on why the
expression is readable; what is carried along is the spelling in its place, with the parentheses
that the place asks for.

## Main definitions

* `keyWord`: the word of a key.
* `Expr.SpellsTo`: the words of an expression in a place have a property.
* `Expr.IsWritten`: the words of an expression in a place, and what is derived from them.

## Main results

* `Readable.exists_isWritten`: readable expressions are derived from their spelling.
* `Declared.exists_spelled`: declarations are read back from their spelling.
-/

namespace StackScript

open Text Number Reader Grammar

/-! ### Names and keys -/

theorem isWord_of_isIdentifier {cs : List Char} (h : isIdentifier cs = true) :
    isWord cs = true := by
  cases cs with
  | nil => cases h
  | cons c cs =>
    rw [isIdentifier, Bool.and_eq_true] at h
    simp [isWord, isIdentifierPart_iff.2 (.inl h.1), h.1, h.2]

/-- The word of a key or of a declared name. -/
def keyWord (key : String) : Word := if isIdentifier key.toList then .ident key else .str key

theorem keyWord_kind (key : String) :
    (keyWord key).kind = .identifier ∨ (keyWord key).kind = .string := by
  unfold keyWord
  split_ifs
  · exact .inl rfl
  · exact .inr rfl

theorem keyWord_value (key : String) : (keyWord key).value = key := by
  unfold keyWord
  split_ifs <;> rfl

theorem spelled_key (key : String) :
    SpelledBefore EndsName (spellKey key.toList) [keyWord key] := by
  unfold spellKey keyWord
  split_ifs with h
  · exact spelled_word (isWord_of_isIdentifier h)
  · exact spelled_string key

/-- Names with points between them. -/
theorem spelled_dotted {path : List String} (h : ∀ x ∈ path, isWord x.toList = true) :
    SpelledBefore EndsName (List.intercalate ['.'] (path.map String.toList))
      (Word.joined (.sign .dot) (path.map fun x => [Word.ident x])) :=
  spelled_names (fun _ => endsName_cons (c := '.') (by decide))
    (fun _ _ hvs => .bracket (c := '.') rfl (by decide) hvs) h

theorem spelled_name {levels : Nat} {x : String} (hx : Readable levels 4 (.name x)) :
    SpelledBefore EndsName (Expr.spellName x) (nameWords x) := by
  cases hx with
  | name hx =>
    have hpseudo := isPseudo_eq_false_of_isWord hx.word
    rw [Expr.spellName, nameWords, hpseudo]
    exact spelled_word hx.word
  | @pseudo _ _ attr ha =>
    have h := @spelled_dotted [Expr.pseudoBase, attr] (by simpa [ha] using by decide)
    rw [Expr.spellName, nameWords, isPseudo_pseudoName, pseudoTail_pseudoName]
    simpa [Word.joined] using h
  | grouped hp => exact absurd hp (by simp [Expr.precedence])

/-- The spelling of a name with attributes. -/
theorem exists_spell_member {x : String} {path : List String} (hx : isWord x.toList = true)
    (hne : path ≠ []) (hp : ∀ attr ∈ path, isWord attr.toList = true) :
    ∃ text, (Expr.member (.name x) path).spell = .ok text ∧
      SpelledBefore EndsName text
        (.ident x :: path.flatMap fun attr => [.sign .dot, .ident attr]) := by
  refine ⟨List.intercalate ['.'] ((x :: path).map String.toList), ?_, ?_⟩
  · rw [List.map_cons, List.intercalate_cons_of_ne_nil (by simpa using hne), List.append_assoc]
    simp only [Expr.spell, Expr.spellName, isPseudo_eq_false_of_isWord hx, Bool.false_eq_true,
      if_false, String.toList_intercalate]
    rfl
  · have hwords : Word.joined (.sign .dot) ((x :: path).map fun x => [Word.ident x]) =
        .ident x :: path.flatMap fun attr => [.sign .dot, .ident attr] := by
      simp [Word.joined, List.flatMap_map]
    rw [← hwords]
    exact spelled_dotted (List.forall_mem_cons.2 ⟨hx, hp⟩)

/-- The spelling of a path of attributes in brackets. -/
theorem spelled_path (path : List String) :
    Spelled (Expr.commas (path.map fun segment => quoteString segment.toList))
      (Word.joined (.sign .comma) (path.map fun s => [Word.str s])) := by
  refine spelled_commas ?_
  rw [List.forall₂_map_left_iff, List.forall₂_map_right_iff, List.forall₂_same]
  exact fun s _ => spelled_string s

/-! ### Literals -/

theorem isNumeral_intText (n : Int) : IsNumeral (intText n) := by
  cases n with
  | ofNat n =>
    exact ⟨[], natText n, [], by simp [intText], .inl rfl,
      ⟨natText_ne_nil n, fun _ => isDigit_of_mem_natText⟩, .inl rfl⟩
  | negSucc n =>
    exact ⟨['-'], natText (n + 1), [], by simp [intText], .inr rfl,
      ⟨natText_ne_nil _, fun _ => isDigit_of_mem_natText⟩, .inl rfl⟩

theorem isNumeral_positional {x : Double} (h : x.isFinite = true) :
    IsNumeral x.positional := by
  obtain ⟨negative, whole, fraction, htext, hwhole, hfraction, hdigits, -⟩ :=
    Double.exists_positional h
  rw [List.forall_mem_append] at hdigits
  refine ⟨if negative then ['-'] else [], whole, '.' :: fraction, ?_, ?_, ⟨hwhole, hdigits.1⟩,
    .inr ⟨fraction, rfl, hfraction, hdigits.2⟩⟩
  · rw [htext]
    cases negative <;> simp [Double.signed]
  · cases negative
    · exact .inl rfl
    · exact .inr rfl

theorem spellScalar_float (x : Double) : spellScalar (.float x) = .ok x.positional := by
  rw [spellScalar, Double.fixedPoint_eq_positional]

/-- A literal is spelled by one word, from which it is read back. -/
theorem Scalar.IsSpellable.exists_word {s : Scalar} (h : s.IsSpellable) :
    ∃ text w, spellScalar s = .ok text ∧ Spelled text [w] ∧ IsLiteral w ∧
      ∀ levels, Worded levels .primary (.literal s) [w] := by
  have hkeyword {x : String} (hx : isWord x.toList = true) : Spelled x.toList [.ident x] :=
    (spelled_word hx).imp fun _ => Ends.endsName
  cases s with
  | null => exact ⟨_, .ident "null", rfl, hkeyword (by decide), .inr ⟨rfl, rfl⟩,
      fun _ => worded_keyword rfl⟩
  | bool b =>
    cases b
    · exact ⟨_, .ident "false", rfl, hkeyword (by decide), .inr ⟨rfl, rfl⟩,
      fun _ => worded_keyword rfl⟩
    · exact ⟨_, .ident "true", rfl, hkeyword (by decide), .inr ⟨rfl, rfl⟩,
      fun _ => worded_keyword rfl⟩
  | int n =>
    obtain ⟨text, htext⟩ := Option.isSome_iff_exists.1 h
    have hspell : spellScalar (.int n) = .ok text := by rw [spellScalar, spellInt, htext]
    have heq : text = intText n := by
      rw [writeInt?] at htext
      split_ifs at htext
      exact (Option.some.inj htext).symm
    have hnumeral : IsNumeral text := heq ▸ isNumeral_intText n
    exact ⟨text, _, hspell, spelled_number hnumeral, .inl (by simp), fun _ =>
      worded_number hnumeral (numberValue_writeInt htext)⟩
  | float x =>
    exact ⟨_, _, spellScalar_float x, spelled_number (isNumeral_positional h), .inl (by simp),
      fun _ => worded_number (isNumeral_positional h) (numberValue_positional h)⟩
  | str s =>
    exact ⟨_, _, rfl, spelled_string s, .inl (by simp), fun _ => worded_string s⟩

/-! ### Lists of expressions -/

namespace Expr

variable {levels place other : Nat} {e : Expr} {text : List Char} {ws : List Word}

theorem one_le_precedence (e : Expr) : 1 ≤ e.precedence := by
  unfold precedence
  split <;> decide

theorem parenthesize_of_le (h : place ≤ e.precedence) (text : List Char) :
    parenthesize place e text = text := if_neg (Nat.not_lt.2 h)

theorem parenthesize_of_lt (h : e.precedence < place) (text : List Char) :
    parenthesize place e text = '(' :: text ++ [')'] := if_pos h

/-- The spelling of an expression in a place consists of words with a property. -/
def SpellsTo (place : Nat) (e : Expr) (P : List Word → Prop) : Prop :=
  ∃ text ws, e.spell = .ok text ∧ Spelled (parenthesize place e text) ws ∧ P ws

theorem spellAll_eq (args : List Expr) : spellAll args = spellOperands 1 args := by
  induction args with
  | nil => rfl
  | cons e args ih =>
    simp only [spellAll, spellOperands, ih, parenthesize_of_le e.one_le_precedence]

/-- Operands in equal places. -/
theorem exists_spellOperands {R : Expr → List Word → Prop} {args : List Expr}
    (h : ∀ e ∈ args, SpellsTo place e (R e)) :
    ∃ texts wss, spellOperands place args = .ok texts ∧ List.Forall₂ Spelled texts wss ∧
      List.Forall₂ R args wss := by
  induction args with
  | nil => exact ⟨[], [], rfl, .nil, .nil⟩
  | cons e args ih =>
    rw [List.forall_mem_cons] at h
    obtain ⟨text, ws, hspell, hspelled, hws⟩ := h.1
    obtain ⟨texts, wss, hspells, hmore, hwss⟩ := ih h.2
    refine ⟨_, ws :: wss, ?_, .cons hspelled hmore, .cons hws hwss⟩
    rw [spellOperands, hspell, hspells]
    rfl

theorem spelled_field (key : String) (h : Spelled text ws) :
    Spelled (spellKey key.toList ++ ':' :: ' ' :: text) (keyWord key :: .sign .colon :: ws) := by
  have hcolon : Spelled (':' :: ' ' :: text) (.sign .colon :: ws) := fun rest vs hrest hvs =>
    .single (c := ':') rfl (by rintro d ⟨⟩; rfl) (h rest vs hrest hvs).space
  exact (spelled_key key).append hcolon fun _ _ => endsName_cons (by decide)

/-- The properties of an object. -/
theorem exists_spellFields {R : String × Expr → List Word → Prop} {fields : List (String × Expr)}
    (h : ∀ field ∈ fields, SpellsTo 1 field.2 (R field)) :
    ∃ texts parts, spellFields fields = .ok texts ∧
      List.Forall₂ Spelled texts (parts.map Word.property) ∧
      List.Forall₂ (fun field part => part.1 = keyWord field.1 ∧ R field part.2) fields parts := by
  induction fields with
  | nil => exact ⟨[], [], rfl, .nil, .nil⟩
  | cons field fields ih =>
    obtain ⟨key, value⟩ := field
    rw [List.forall_mem_cons] at h
    obtain ⟨text, ws, hspell, hspelled, hws⟩ := h.1
    rw [parenthesize_of_le value.one_le_precedence] at hspelled
    obtain ⟨texts, parts, hspells, hmore, hparts⟩ := ih h.2
    refine ⟨_, (keyWord key, ws) :: parts, ?_, .cons (spelled_field key hspelled) hmore,
      .cons ⟨rfl, hws⟩ hparts⟩
    rw [spellFields, hspell, hspells]
    rfl

/-- The modifiers of a resource. -/
theorem exists_spellModifiers {R : String × Expr → List Word → Prop}
    {modifiers : List (String × Expr)} (h : ∀ m ∈ modifiers, SpellsTo 1 m.2 (R m))
    (hnames : ∀ m ∈ modifiers, m.1 ∈ modifierNames) :
    ∃ text parts, spellModifiers modifiers = .ok text ∧
      Spelled text (parts.flatMap Word.modifier) ∧ (∀ rest, Ends rest → Ends (text ++ rest)) ∧
      List.Forall₂ (fun m part => part.1 = m.1 ∧ R m part.2) modifiers parts := by
  induction modifiers with
  | nil => exact ⟨[], [], rfl, spelled_nil, fun _ h => h, .nil⟩
  | cons m modifiers ih =>
    obtain ⟨modifier, value⟩ := m
    rw [List.forall_mem_cons] at h hnames
    obtain ⟨text, ws, hspell, hspelled, hws⟩ := h.1
    rw [parenthesize_of_le value.one_le_precedence] at hspelled
    obtain ⟨more, parts, hspells, hmore, hends, hparts⟩ := ih h.2 hnames.2
    have hword : isWord modifier.toList = true := by
      have hall : ∀ m ∈ modifierNames, isWord m.toList = true := by decide
      exact hall modifier hnames.1
    have hbracketed : Spelled (modifier.toList ++ '(' :: text ++ [')'])
        (Word.modifier (modifier, ws)) :=
      (spelled_word hword).append_brackets hspelled (by decide) rfl rfl
    refine ⟨_, (modifier, ws) :: parts, ?_, (hbracketed.append hmore hends).space,
      fun _ _ => ends_cons (by decide), .cons ⟨rfl, hws⟩ hparts⟩
    rw [spellModifiers, hspell, hspells]
    simp [bind, Except.bind, pure, Except.pure]

/-! ### Reading expressions back -/

/-- The spelling of an expression in a place consists of words that it is derived from, with a
number of nesting levels left. -/
structure IsWritten (levels place : Nat) (e : Expr) (text : List Char) (ws : List Word) :
    Prop where
  spell : e.spell = .ok text
  spelled : Spelled (parenthesize place e text) ws
  words : Worded levels (phraseAt place) e ws

/-- An expression in a place that asks for no more than its precedence. -/
theorem IsWritten.of_le (hp : place ≤ e.precedence) (hle : place ≤ other)
    (hspell : e.spell = .ok text) (hs : Spelled text ws)
    (hw : Worded levels (phraseAt other) e ws) : IsWritten levels place e text ws :=
  ⟨hspell, by rwa [parenthesize_of_le hp], hw.of_le hle⟩

theorem IsWritten.spelled_text (h : IsWritten levels 1 e text ws) : Spelled text ws := by
  have := h.spelled
  rwa [parenthesize_of_le e.one_le_precedence] at this

theorem IsWritten.spellsTo (h : ∃ text ws, IsWritten levels place e text ws) :
    SpellsTo place e (Worded levels (phraseAt place) e) :=
  let ⟨text, ws, h⟩ := h
  ⟨text, ws, h.spell, h.spelled, h.words⟩

/-- Expressions with commas between them. -/
theorem exists_wordedAll {args : List Expr}
    (h : ∀ e ∈ args, ∃ text ws, IsWritten levels 1 e text ws) :
    ∃ texts wss, spellAll args = .ok texts ∧
      Spelled (commas texts) (Word.joined (.sign .comma) wss) ∧
      List.Forall₂ (Worded levels .disjunction) args wss := by
  obtain ⟨texts, wss, hspell, hspelled, hwords⟩ :=
    exists_spellOperands fun e he => IsWritten.spellsTo (h e he)
  exact ⟨texts, wss, by rw [spellAll_eq, hspell], spelled_commas hspelled, hwords⟩

/-- The properties of an object. -/
theorem exists_wordedField {fields : List (String × Expr)}
    (h : ∀ field ∈ fields, ∃ text ws, IsWritten levels 1 field.2 text ws) :
    ∃ texts wss, spellFields fields = .ok texts ∧ List.Forall₂ Spelled texts wss ∧
      List.Forall₂ (WordedField levels) fields wss := by
  obtain ⟨texts, parts, hspell, hspelled, hparts⟩ :=
    exists_spellFields fun field hf => IsWritten.spellsTo (h field hf)
  refine ⟨texts, _, hspell, hspelled, ?_⟩
  rw [List.forall₂_map_right_iff]
  refine hparts.imp fun field part hpart => ⟨part.1, part.2, rfl, ?_, ?_, hpart.2⟩
  · simpa [hpart.1] using keyWord_kind field.1
  · rw [hpart.1, keyWord_value]

/-- The modifiers of a resource are read back. -/
theorem exists_readsModifier {modifiers : List (String × Expr)}
    (h : ∀ m ∈ modifiers, ∃ text ws, IsWritten (levels - 1) 1 m.2 text ws)
    (hnames : ∀ m ∈ modifiers, modifierNames.contains m.1 = true)
    (hl : modifiers ≠ [] → 0 < levels) :
    ∃ text wss, spellModifiers modifiers = .ok text ∧ Spelled text wss.flatten ∧
      (∀ rest, Ends rest → Ends (text ++ rest)) ∧
      ∀ line limit, List.Forall₂ (ReadsModifier line limit levels) modifiers wss := by
  obtain ⟨text, parts, hspell, hspelled, hends, hparts⟩ := exists_spellModifiers
    (fun m hm => IsWritten.spellsTo (h m hm)) fun m hm => List.contains_iff_mem.1 (hnames m hm)
  rw [List.flatMap_def] at hspelled
  refine ⟨text, _, hspell, hspelled, hends, fun line limit => ?_⟩
  rw [List.forall₂_map_right_iff]
  by_cases hne : modifiers = []
  · subst hne
    cases hparts
    exact .nil
  · refine hparts.imp fun m part hpart => ⟨part.2, by rw [Word.modifier, hpart.1], ?_⟩
    exact Worded.readsInside hpart.2 (Nat.sub_one_lt_of_lt (hl hne))

end Expr

/-! ### Expressions -/

section Operators

variable {texts : List (List Char)} {wss : List (List Word)}

theorem spelled_conjunction (h : List.Forall₂ Spelled texts wss) :
    Spelled (List.intercalate " && ".toList texts) (Word.joined (.sign .doubleAmpersand) wss) :=
  spelled_intercalate (fun _ => ends_cons (c := ' ') (by decide))
    (fun _ _ hvs => (Scan.pair (c := '&') rfl hvs.space).space) h

theorem spelled_disjunction (h : List.Forall₂ Spelled texts wss) :
    Spelled (List.intercalate " || ".toList texts) (Word.joined (.sign .doublePipe) wss) :=
  spelled_intercalate (fun _ => ends_cons (c := ' ') (by decide))
    (fun _ _ hvs => (Scan.pair (c := '|') rfl hvs.space).space) h

/-- Two operands with a sign of two characters between them. -/
theorem spelled_comparison {c d : Char} {kind : TokenKind} {cs cs' : List Char}
    {ws ws' : List Word} (hk : Lexeme.pairKind? c d = some kind) (h : Spelled cs ws)
    (h' : Spelled cs' ws') :
    Spelled (cs ++ [' ', c, d, ' '] ++ cs') (ws ++ .sign kind :: ws') := by
  have hright : Spelled (c :: d :: ' ' :: cs') (.sign kind :: ws') := fun rest vs hrest hvs =>
    .pair hk (h' rest vs hrest hvs).space
  simpa using h.space_append hright

theorem spelled_negation {cs : List Char} {ws : List Word} (h : Spelled cs ws)
    (hs : Starts ws) : Spelled ('!' :: cs) (.sign .bang :: ws) := by
  intro rest vs hrest hvs
  have hscan := h rest vs hrest hvs
  refine .single (c := '!') rfl (fun d hd => ?_) hscan
  obtain ⟨w, more, rfl, hw⟩ := hs
  obtain ⟨tail, htail⟩ : ∃ tail, cs ++ rest = d :: tail := List.head?_eq_some_iff.1 hd
  rw [htail] at hscan
  have hne : d ≠ '=' := hscan.head_ne_equals fun hmem => by
    revert hw hmem
    cases w.kind <;> decide
  unfold Lexeme.pairKind?
  split <;> simp_all

end Operators

namespace Expr

variable {levels place : Nat} {e : Expr} {text : List Char} {ws : List Word}

/-- An expression without operators fits every place. -/
private theorem exists_isWritten_atom (hspell : e.spell = .ok text) (hs : Spelled text ws)
    (hw : Worded levels .suffixed e ws) (hp : e.precedence = 5) (hfour : place ≤ 4) :
    ∃ text ws, IsWritten levels place e text ws :=
  ⟨text, ws, hspell, by rwa [parenthesize_of_le (by omega)], hw.of_suffixed⟩

private theorem exists_isWritten_name {x : String} (hx : Readable levels 4 (.name x))
    (hfour : place ≤ 4) : ∃ text ws, IsWritten levels place (.name x) text ws :=
  exists_isWritten_atom rfl ((spelled_name hx).imp fun _ => Ends.endsName) (worded_nameWords hx) rfl
    hfour

/-- An expression that needs parentheses in its place. -/
private theorem IsWritten.grouped (h : IsWritten (levels - 1) 1 e text ws)
    (hp : e.precedence < place) (hl : 0 < levels) :
    IsWritten levels place e text (.sign .lparen :: (ws ++ [.sign .rparen])) := by
  refine ⟨h.spell, ?_, (Worded.grouped h.words (Nat.sub_one_lt_of_lt hl)).suffixed.of_suffixed⟩
  rw [parenthesize_of_lt hp]
  exact h.spelled_text.enclosed (by decide) rfl rfl

end Expr

open StackScript.Expr in
/-- Readable expressions are derived from the words of their spelling. -/
theorem Readable.exists_isWritten {levels place : Nat} {e : Expr} (h : Readable levels place e)
    (hfour : place ≤ 4) : ∃ text ws, IsWritten levels place e text ws := by
  induction h with
  | literal hs =>
    obtain ⟨text, w, hspell, hspelled, -, hwords⟩ := hs.exists_word
    exact exists_isWritten_atom hspell hspelled (hwords _).suffixed rfl hfour
  | name hx => exact exists_isWritten_name (.name hx) hfour
  | pseudo ha => exact exists_isWritten_name (.pseudo ha) hfour
  | object hkeys hl _ ih =>
    obtain ⟨texts, wss, hspell, hspelled, hwords⟩ :=
      exists_wordedField fun field hmem => ih field hmem (by decide)
    exact exists_isWritten_atom (by rw [spell, hspell]; rfl) (spelled_braces hspelled)
      (Worded.object hwords (fun hne => Nat.sub_one_lt_of_lt (hl hne)) hkeys).suffixed rfl hfour
  | array hl _ ih =>
    obtain ⟨texts, wss, hspell, hspelled, hwords⟩ :=
      exists_wordedAll fun e hmem => ih e hmem (by decide)
    exact exists_isWritten_atom (by rw [spell, hspell]; rfl)
      (hspelled.enclosed (by decide) rfl rfl)
      (Worded.array hwords fun hne => Nat.sub_one_lt_of_lt (hl hne)).suffixed rfl hfour
  | member hx hbase hne hp =>
    obtain ⟨text, hspell, hspelled⟩ := exists_spell_member hx.word hne hp
    exact exists_isWritten_atom hspell (hspelled.imp fun _ => Ends.endsName)
      (worded_member hx hbase hne) rfl hfour
  | @bracket _ _ x path hb hne _ =>
    exact exists_isWritten_atom rfl
      ((spelled_name hb).append_brackets (spelled_path path) (by decide) rfl rfl)
      ((worded_nameWords hb).bracket hne) rfl hfour
  | call hf href hl _ ih =>
    obtain ⟨texts, wss, hspell, hspelled, hwords⟩ :=
      exists_wordedAll fun e hmem => ih e hmem (by decide)
    exact exists_isWritten_atom (by rw [spell, hspell]; rfl)
      ((spelled_word hf.word).append_brackets hspelled (by decide) rfl rfl)
      (Worded.call hf href hwords fun hne => Nat.sub_one_lt_of_lt (hl hne)).suffixed rfl hfour
  | negation hp hl _ ih =>
    obtain ⟨text, ws, he⟩ := ih le_rfl
    exact ⟨_, _, .of_le hp hp (by rw [spell, he.spell]; rfl)
      (spelled_negation he.spelled he.words.starts)
      (Worded.negation he.words (Nat.sub_one_lt_of_lt hl))⟩
  | equality hp _ _ ihl ihr =>
    obtain ⟨text, ws, hleft⟩ := ihl le_rfl
    obtain ⟨text', ws', hright⟩ := ihr le_rfl
    exact ⟨_, _, .of_le hp hp (by rw [spell, hleft.spell, hright.spell]; rfl)
      (spelled_comparison rfl hleft.spelled hright.spelled)
      (Worded.equality hleft.words hright.words)⟩
  | inequality hp _ _ ihl ihr =>
    obtain ⟨text, ws, hleft⟩ := ihl le_rfl
    obtain ⟨text', ws', hright⟩ := ihr le_rfl
    exact ⟨_, _, .of_le hp hp (by rw [spell, hleft.spell, hright.spell]; rfl)
      (spelled_comparison rfl hleft.spelled hright.spelled)
      (Worded.inequality hleft.words hright.words)⟩
  | conjunction hp hn _ ih =>
    obtain ⟨texts, wss, hspell, hspelled, hwords⟩ :=
      exists_spellOperands fun e hmem => IsWritten.spellsTo (ih e hmem (by decide))
    exact ⟨_, _, .of_le hp hp (by rw [spell, hspell]; rfl) (spelled_conjunction hspelled)
      (Worded.conjunction hwords hn)⟩
  | disjunction hp hn _ ih =>
    obtain ⟨texts, wss, hspell, hspelled, hwords⟩ :=
      exists_spellOperands fun e hmem => IsWritten.spellsTo (ih e hmem (by decide))
    exact ⟨_, _, .of_le hp hp (by rw [spell, hspell]; rfl) (spelled_disjunction hspelled)
      (Worded.disjunction hwords hn)⟩
  | grouped hp hl _ ih =>
    obtain ⟨text, ws, he⟩ := ih (by decide)
    exact ⟨text, _, he.grouped hp hl⟩

/-! ### Declarations -/

namespace Expr

variable {levels : Nat}

/-- The spelling of the type of a resource. -/
def spellType (type : String) : List Char :=
  if isBareType type.toList then type.toList else quoteString type.toList

/-- The spelling of the properties of a resource, after a space if there are any. -/
def spellProperties : Option (List (String × Expr)) → Except SpellFault (List Char)
  | some fields => do return ' ' :: braces (← spellFields fields)
  | none => .ok []

theorem spell_resource (type : String) (properties : Option (List (String × Expr)))
    (modifiers : List (String × Expr)) :
    spell (.resource type properties modifiers) = do
      let body ← spellProperties properties
      let attributes ← spellModifiers modifiers
      return "Resource ".toList ++ spellType type ++ body ++ attributes := by
  cases properties with
  | none => rw [spell]; rfl
  | some fields =>
    rw [spell, spellProperties]
    cases spellFields fields <;> rfl

/-- The words of the type of a resource, bare or in quotes. -/
def typeWords (type : String) : List Word :=
  if isBareType type.toList then
    Word.joined (.sign .doubleColon)
      ((splitAtPair ':' ':' type.toList).map fun part => [.ident (String.ofList part)])
  else [.str type]

theorem spelled_type (type : String) : Spelled (spellType type) (typeWords type) := by
  unfold spellType typeWords
  split_ifs with hbare
  · have hparts := intercalate_splitAtPair ':' ':' type.toList
    unfold isBareType at hbare
    generalize splitAtPair ':' ':' type.toList = parts at hparts hbare
    have hspelled := @spelled_names [':', ':'] .doubleColon (parts.map String.ofList)
      (fun _ => endsName_cons (by decide)) (fun _ _ hvs => .pair rfl hvs) ?_
    · rw [show (parts.map String.ofList).map String.toList = parts by simp, hparts,
        List.map_map] at hspelled
      exact hspelled.imp fun _ => Ends.endsName
    · simp only [List.forall_mem_map, String.toList_ofList]
      exact fun part hpart => isWord_of_isIdentifier (List.all_eq_true.1 hbare part hpart)
  · exact spelled_string type

/-- The type of a resource is read back from its words. -/
theorem reads_typeWords {type : String} (ht : type ≠ "") (line : Nat) :
    Reads line resourceType (fun t => t.kind ≠ .doubleColon) (typeWords type) type := by
  unfold typeWords
  split_ifs
  · have hparts := intercalate_splitAtPair ':' ':' type.toList
    have hne := splitAtPair_ne_nil ':' ':' type.toList
    generalize splitAtPair ':' ':' type.toList = parts at hparts hne
    have htype : "::".intercalate (parts.map String.ofList) = type := by
      rw [← String.toList_inj, String.toList_intercalate, List.map_map]
      simpa using hparts
    have hreads := @reads_resourceType_segments line (parts.map String.ofList) (by simpa using hne)
    rwa [htype, List.map_map] at hreads
  · exact reads_resourceType_string ht

end Expr

open StackScript.Expr in
private theorem Readable.exists_braces {levels : Nat} {fields : List (String × Expr)}
    (h : Readable levels 4 (.object fields)) :
    ∃ texts wss, spellFields fields = .ok texts ∧
      Spelled (braces texts) (Word.enclosed .lbrace .rbrace wss) ∧
      WordedFields levels fields wss := by
  cases h with
  | grouped hp => exact absurd hp (by simp [precedence])
  | object hkeys hl hf =>
    obtain ⟨texts, wss, hspell, hspelled, hwords⟩ :=
      exists_wordedField fun field hmem => (hf field hmem).exists_isWritten (by decide)
    exact ⟨texts, wss, hspell, spelled_braces hspelled, hwords, hl, hkeys⟩

open StackScript.Expr in
/-- The properties of a resource, if there are any. -/
private theorem exists_properties {levels : Nat} {properties : Option (List (String × Expr))}
    (h : ∀ fields, properties = some fields → Readable levels 4 (.object fields)) :
    ∃ text ws, spellProperties properties = .ok text ∧ Spelled text ws ∧
      (∀ rest, Ends rest → Ends (text ++ rest)) ∧
      WordedProperties levels properties ws := by
  cases properties with
  | none => exact ⟨[], [], rfl, spelled_nil, fun _ h => h, .none⟩
  | some fields =>
    obtain ⟨texts, wss, hspell, hspelled, hwords⟩ := (h fields rfl).exists_braces
    refine ⟨_, _, ?_, hspelled.space, fun _ _ => ends_cons (by decide), .some hwords⟩
    rw [spellProperties, hspell]
    rfl

open StackScript.Expr in
/-- Declarations are read back from their spelling. -/
theorem Declared.exists_spelled {levels : Nat} {e : Expr} (h : Declared levels e) :
    ∃ text ws, e.spell = .ok text ∧ Spelled text ws ∧
      ∀ line limit, Reads line (expressionAt limit (levels + 1)) (EndsStatement line) ws e := by
  have hkeyword {x : String} (hx : isWord x.toList = true) : Spelled x.toList [.ident x] :=
    (spelled_word hx).imp fun _ => Ends.endsName
  cases h with
  | @resource type properties modifiers ht hp hnames hkeys hl hm hpolicy =>
    obtain ⟨ptext, pws, hpspell, hproperties, hpends, hpwords⟩ := exists_properties hp
    obtain ⟨mtext, wss, hmspell, hmodifiers, hmends, hmreads⟩ := exists_readsModifier
      (fun m hmem => (hm m hmem).exists_isWritten (by decide)) hnames hl
    have hattributes := hproperties.append hmodifiers hmends
    refine ⟨_, _, ?_,
      (hkeyword (by decide)).space_append ((spelled_type type).append hattributes ?_),
      fun line limit => reads_expressionAt_resource (reads_typeWords ht line) hpwords
        (hmreads line limit) hnames hkeys hpolicy⟩
    · rw [spell_resource, hpspell, hmspell]
      simp [bind, Except.bind, pure, Except.pure]
    · intro rest hrest
      rw [List.append_assoc]
      exact hpends _ (hmends rest hrest)
  | @body kind fields hf =>
    obtain ⟨texts, wss, hspell, hspelled, hwords⟩ := hf.exists_braces
    refine ⟨_, _, ?_, (hkeyword ?_).space_append hspelled,
      fun line limit => reads_expressionAt_body kind hwords⟩
    · rw [spell, hspell]
      rfl
    · cases kind <;> decide
  | condition hl ht =>
    obtain ⟨text, ws, htest⟩ := ht.exists_isWritten (by decide)
    refine ⟨_, _, ?_, (hkeyword (by decide)).space_append htest.spelled_text, fun line limit =>
      reads_expressionAt_condition (Worded.readsInside htest.words (Nat.sub_one_lt_of_lt hl))⟩
    rw [spell, htest.spell]
    rfl

end StackScript
