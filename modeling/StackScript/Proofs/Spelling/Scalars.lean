import StackScript.Proofs.Grammar.Statements
import StackScript.Proofs.Number.Display
import StackScript.Proofs.Spelling.Expressions
import StackScript.Proofs.Token.Division

/-!
# Strings, keys and numbers are read back from their spelling

Wherever a string in quotes stands in a text, the cursor reads it as one token and stops behind the
closing quote, whatever follows. A key is read as one token too, unless it is bare and runs on into
a letter. The spelling of a number is one token by itself, which is parsed as that number; if it has
a fraction, its digits are exactly those of the number as it is displayed.

## Main definitions

* `IsLoneNumber`: a text that is a single number token and that is parsed as a literal.

## Main results

* `Cursor.next_of_begins`: the cursor passes the word that a text begins with.
* `next_quoteString_and_next_spellKey`: strings and keys before other text.
* `spellNumber_exact`: numbers.
-/

namespace StackScript

open Number Reader Grammar

/-! ### Strings and keys -/

/-- The cursor passes the word that a text begins with. -/
theorem Cursor.next_of_begins {chars rest : List Char} {w : Word}
    (h : Lexeme.Begins chars rest w) (p : Position) :
    (Cursor.mk (chars ++ rest) p).next =
      (.ok ⟨w.kind, w.value, p.line, p.column⟩, ⟨rest, p.after chars⟩) := by
  have hskip : (Cursor.mk (chars ++ rest) p).skipLayout = ⟨chars ++ rest, p⟩ := by
    simp only [skipLayout, h.start, move]
    rfl
  simp only [next, hskip, h.read, move, String.ofList_toList]

/-- A key is one word, bare or in quotes. -/
theorem Lexeme.begins_key (key : String) {rest : List Char} (hrest : EndsName rest) :
    Begins (spellKey key.toList) rest (keyWord key) := by
  unfold spellKey keyWord
  split_ifs with h
  · have hword := begins_word (isWord_of_isIdentifier h) hrest
    rwa [String.ofList_toList] at hword
  · exact begins_string key rest

/-- **Strings and keys are read back** from their spelling, before any text that follows: the next
token has the string as its value, and the cursor comes to stand right behind the spelling. A bare
key must not run on into a letter, a digit or an underscore. -/
theorem next_quoteString_and_next_spellKey (s : String) (rest : List Char) (p : Position) :
    (Cursor.mk (quoteString s.toList ++ rest) p).next =
        (.ok ⟨.string, s, p.line, p.column⟩, ⟨rest, p.after (quoteString s.toList)⟩) ∧
      ((∀ c ∈ rest.head?, isIdentifierPart c = false) →
        ∃ kind ∈ [TokenKind.identifier, .string], (Cursor.mk (spellKey s.toList ++ rest) p).next =
          (.ok ⟨kind, s, p.line, p.column⟩, ⟨rest, p.after (spellKey s.toList)⟩)) := by
  refine ⟨Cursor.next_of_begins (Lexeme.begins_string s rest) p, fun hrest => ?_⟩
  refine ⟨(keyWord s).kind, by simpa using keyWord_kind s, ?_⟩
  have hnext := Cursor.next_of_begins (Lexeme.begins_key s hrest) p
  rwa [keyWord_value] at hnext

/-- A string that ends with a quote and a backslash, before another quote and a comment. -/
theorem next_quoteString_and_next_spellKey_backslash :
    (Cursor.mk (quoteString "a'\\".toList ++ "'#".toList) {}).next =
        (.ok ⟨.string, "a'\\", 1, 1⟩, ⟨"'#".toList, ({} : Position).after "'a\\'\\\\'".toList⟩) ∧
      (∀ c ∈ "'#".toList.head?, isIdentifierPart c = false) ∧
      ∃ kind ∈ [TokenKind.identifier, .string],
        (Cursor.mk (spellKey "a'\\".toList ++ "'#".toList) {}).next =
          (.ok ⟨kind, "a'\\", 1, 1⟩, ⟨"'#".toList, ({} : Position).after "'a\\'\\\\'".toList⟩) := by
  have hends : ∀ c ∈ "'#".toList.head?, isIdentifierPart c = false := by
    rintro c ⟨⟩
    rfl
  obtain ⟨hstring, hkey⟩ := next_quoteString_and_next_spellKey "a'\\" "'#".toList {}
  exact ⟨hstring, hends, hkey hends⟩

/-! ### Numbers -/

/-- A text that is a single number token and that is parsed as a literal, up to its end. -/
structure IsLoneNumber (limit : Nat) (text : List Char) (value : Scalar) : Prop where
  tokens : tokenize text = .ok [⟨.number, String.ofList text, 1, 1⟩, Word.eof.tokenAfter text]
  parsed : ∃ start stop, ReaderState.start text = .ok start ∧
    (expression limit).run.run start = (.ok (.literal value), stop) ∧ stop.current.kind = .eof

/-- A numeral is a lone number. -/
theorem isLoneNumber {limit : Nat} (hlimit : 0 < limit) {text : List Char} {value : Scalar}
    (h : IsNumeral text) (hvalue : numberValue text = some value) :
    IsLoneNumber limit text value := by
  let w : Word := ⟨.number, String.ofList text⟩
  have hbegins : Lexeme.Begins text [] w := Lexeme.begins_number h (by simp)
  obtain ⟨hlexeme, hends⟩ := (Lexeme.read_eq_iff hbegins.ne_nil).1 hbegins.read
  have hpiece : Divided [⟨[], text, w⟩] [] := .cons .nil hlexeme hends .nil
  have hjoin : Piece.join [⟨[], text, w⟩] [] = text := by simp [Piece.join]
  have htokens := tokenize_join hpiece .nil
  have hstream := TokenStream.ofText_join_eof hpiece .nil
  rw [hjoin] at htokens hstream
  have hwords : Worded 0 (phraseAt 1) (.literal value) [w] :=
    (worded_number h hvalue).suffixed.of_suffixed
  have hreads : ReadsInside 1 limit limit [w] (.literal value) := Worded.readsInside hwords hlimit
  have hstops : Stops 1 (Word.eof.tokenAfter text) :=
    stops_of_mem (by simp [Word.tokenAfter, Word.eof])
  obtain ⟨previous, hrun⟩ := @run_expression _ _ _ _ _ hreads.reads (w.tokenAfter [])
    (Word.eof.tokenAfter text) [w.tokenAfter []] [] rfl (List.forall_mem_singleton.2 rfl) rfl hstops
  exact ⟨htokens, _, _, ReaderState.start_of_ofText hstream, hrun, rfl⟩

/-- **The spelling of a number is exact.** A finite number is spelled by digits with a point among
them, which stand for the same rational number as the displayed text; an integer of at most 4300
digits is spelled by its digits. Either text is a single number token, and is parsed as the number
that was spelled. -/
theorem spellNumber_exact {limit : Nat} (hlimit : 0 < limit) :
    (∀ x : Double, x.isFinite = true → ∃ text, spellNumber (.float x) = .ok text ∧
      IsNumeral text ∧ '.' ∈ text ∧
      (∃ q, Double.StandsFor x.display q ∧ Double.StandsFor text q) ∧
      IsLoneNumber limit text (.float x)) ∧
    ∀ n : Int, n.natAbs < 10 ^ 4300 → ∃ text, spellNumber (.int n) = .ok text ∧
      IsNumeral text ∧ '.' ∉ text ∧ IsLoneNumber limit text (.int n) := by
  constructor
  · intro x hx
    exact ⟨x.positional, spellScalar_float x, isNumeral_positional hx,
      Double.point_mem_positional hx, Double.exists_standsFor hx,
      isLoneNumber hlimit (isNumeral_positional hx) (numberValue_positional hx)⟩
  · intro n hn
    have hwrite : writeInt? n = some (intText n) :=
      if_pos ((Nat.length_toDigits_le_iff (by decide) (by decide)).2 hn)
    have hspell : spellNumber (.int n) = .ok (intText n) := by
      change spellInt n = _
      rw [spellInt, hwrite]
    exact ⟨intText n, hspell, isNumeral_intText n, point_notMem_intText n,
      isLoneNumber hlimit (isNumeral_intText n) (numberValue_writeInt hwrite)⟩

/-- The negative number that is next to zero. -/
private def leastNumber : Double := .finite true 1 (-1074) (by decide)

theorem spellNumber_exact_leastNumber :
    0 < 1 ∧ leastNumber.isFinite = true ∧ leastNumber.display = "-5e-324".toList ∧
      (∃ text, spellNumber (.float leastNumber) = .ok text ∧ IsNumeral text ∧ '.' ∈ text ∧
        (∃ q, Double.StandsFor leastNumber.display q ∧ Double.StandsFor text q) ∧
        IsLoneNumber 1 text (.float leastNumber)) ∧
      (-40 : Int).natAbs < 10 ^ 4300 ∧ ∃ text, spellNumber (.int (-40)) = .ok text ∧
        IsNumeral text ∧ '.' ∉ text ∧ IsLoneNumber 1 text (.int (-40)) := by
  obtain ⟨hfloats, hints⟩ := spellNumber_exact Nat.one_pos
  have hdigits : (-40 : Int).natAbs < 10 ^ 4300 := by decide +kernel
  exact ⟨Nat.one_pos, rfl, by decide +kernel, hfloats leastNumber rfl, hdigits, hints _ hdigits⟩

end StackScript
