import StackScript.Proofs.Token.Forms

/-!
# What tokens look like

Whatever text a token is read from, an identifier consists of letters and digits, and a number of
digits and a point after its sign. Only the last token of a text is the end of input.

## Main definitions

* `Token.IsLexical`: the form of identifiers and numbers.

## Main results

* `TokenStream.isLexical_of_mem`: all tokens of a text have this form.
* `TokenStream.kind_of_last`: the last token is the end of input.
-/

namespace StackScript

open Text Number

/-- Identifiers are words, and numbers consist of digits and points after their sign. -/
structure Token.IsLexical (t : Token) : Prop where
  word : t.kind = .identifier → isWord t.value.toList = true
  numeral : t.kind = .number →
    ∀ c ∈ (Decimal.splitSign t.value.toList).2, isDigit c = true ∨ c = '.'

namespace Lexeme

theorem append_of_quotedBody {quote : Char} {text value passed rest : List Char}
    (h : quotedBody quote text = some (value, passed, rest)) : passed ++ rest = text := by
  fun_induction quotedBody quote text generalizing value passed rest with
  | case1 => cases h
  | case2 => cases h
  | case3 c text ih =>
    obtain ⟨⟨value', passed', rest'⟩, hbody, heq⟩ := Option.map_eq_some_iff.1 h
    cases heq
    rw [List.cons_append, List.cons_append, ih hbody]
  | case4 text hne =>
    cases h
    rfl
  | case5 c text _ _ _ ih =>
    obtain ⟨⟨value', passed', rest'⟩, hbody, heq⟩ := Option.map_eq_some_iff.1 h
    cases heq
    rw [List.cons_append, ih hbody]

private theorem append_readString (quote : Char) (text : List Char) :
    (readString quote text).passed ++ (readString quote text).rest = quote :: text := by
  unfold readString
  split
  next h => exact congrArg (quote :: ·) (append_of_quotedBody h)
  · simp

private theorem fraction_append_drop (tail : List Char) :
    fraction tail ++ tail.drop (fraction tail).length = tail := by
  refine List.prefix_iff_eq_append.1 ?_
  unfold fraction
  split
  next rest =>
    split
    · exact List.nil_prefix
    · exact List.cons_prefix_cons.2 ⟨rfl, List.takeWhile_prefix isDigit⟩
  · exact List.nil_prefix

private theorem append_readNumber (sign text : List Char) :
    (readNumber sign text).passed ++ (readNumber sign text).rest = sign ++ text := by
  have hall : sign ++ text.takeWhile isDigit ++ fraction (text.dropWhile isDigit) ++
      (text.dropWhile isDigit).drop (fraction (text.dropWhile isDigit)).length = sign ++ text := by
    rw [List.append_assoc, fraction_append_drop, List.append_assoc,
      List.takeWhile_append_dropWhile]
  simp only [readNumber]
  split
  · split_ifs
    · rw [List.append_assoc, List.takeWhile_append_dropWhile, hall]
    · exact hall
    · exact hall
  · exact hall

private theorem append_readOne (c : Char) (text : List Char) :
    (readOne c text).passed ++ (readOne c text).rest = c :: text := by
  unfold readOne
  split
  · rfl
  · split_ifs with hquote hdigit hminus hletter
    · exact append_readString c text
    · exact append_readNumber [] (c :: text)
    · exact hminus.1 ▸ append_readNumber ['-'] text
    · exact List.takeWhile_append_dropWhile
    all_goals rfl

/-- Whatever is read, nothing is lost. -/
theorem append_read (text : List Char) : (read text).passed ++ (read text).rest = text := by
  unfold read
  split
  · rfl
  · exact append_readOne _ _
  · split
    · rfl
    · exact append_readOne _ _

/-- After its sign, a number consists of digits and a point. -/
theorem numeral_of_isNumeral {cs : List Char} (h : IsNumeral cs) :
    ∀ c ∈ (Decimal.splitSign cs).2, isDigit c = true ∨ c = '.' := by
  obtain ⟨sign, whole, frac, rfl, hsign, ⟨-, hwhole⟩, hfrac⟩ := h.parts
  have hall : ∀ c ∈ whole ++ frac, isDigit c = true ∨ c = '.' := by
    intro c hc
    rcases List.mem_append.1 hc with hc | hc
    · exact .inl (hwhole c hc)
    · rcases hfrac with rfl | ⟨digits, rfl, -, hdigits⟩
      · cases hc
      · exact (List.mem_cons.1 hc).symm.imp_left (hdigits c)
  rcases hsign with rfl | rfl
  · rw [List.nil_append]
    unfold Decimal.splitSign
    split
    next rest heq => exact fun c hc => hall c (heq ▸ List.mem_cons_of_mem _ hc)
    next rest heq => exact fun c hc => hall c (heq ▸ List.mem_cons_of_mem _ hc)
    · exact hall
  · exact hall

end Lexeme

/-! ### The tokens of a text -/

namespace TokenStream

private theorem length_skipLayout (c : Cursor) : c.skipLayout.rest.length ≤ c.rest.length := by
  have := congrArg List.length (splitLayout_eq false c.rest)
  simp only [List.length_append] at this
  simp only [Cursor.skipLayout, Cursor.move]
  omega

private theorem isLexical_of_next {c : Cursor} {t : Token}
    (hpassed : (Lexeme.read c.skipLayout.rest).passed.isEmpty = false) (h : c.next.1 = .ok t) :
    t.kind ≠ .eof ∧ t.IsLexical := by
  have hne : c.skipLayout.rest ≠ [] := by
    intro hnil
    rw [hnil] at hpassed
    exact Bool.true_eq_false.mp hpassed
  simp only [Cursor.next] at h
  split at h
  next kind value hresult =>
    cases h
    have hlexeme := (Lexeme.isLexeme_and_stops_of_read hne hresult).1
    refine ⟨hlexeme.kind_ne_eof, fun hkind => ?_, fun hkind => ?_⟩
    · simpa using hlexeme.isWord hkind
    · simpa using Lexeme.numeral_of_isNumeral (hlexeme.isNumeral hkind)
  · cases h

/-- The tokens before the last have the form of their kind, and none of them is the end. -/
theorem isLexical_of_mem {limit : Nat} {c : Cursor} {t : Token}
    (h : .ok t ∈ (ofCursor limit c).items) : t.kind ≠ .eof ∧ t.IsLexical := by
  induction limit generalizing c with
  | zero => simp [ofCursor] at h
  | succ limit ih =>
    simp only [ofCursor] at h
    split_ifs at h with hpassed
    · simp at h
    · rcases List.mem_cons.1 h with h | h
      · exact isLexical_of_next (Bool.eq_false_iff.2 hpassed) h.symm
      · exact ih h

/-- The last token is the end of input. -/
theorem kind_of_last {limit : Nat} {c : Cursor} {t : Token} (hlimit : c.rest.length ≤ limit)
    (h : (ofCursor limit c).last = .ok t) : t.kind = .eof := by
  have hend {c : Cursor} (hpassed : (Lexeme.read c.skipLayout.rest).passed = [])
      (h : c.next.1 = .ok t) : t.kind = .eof := by
    simp only [Cursor.next] at h
    split at h
    next kind value hresult =>
      cases h
      by_cases hne : c.skipLayout.rest = []
      · rw [hne] at hresult
        cases hresult
        rfl
      · exact absurd hpassed (Lexeme.isLexeme_and_stops_of_read hne hresult).1.ne_nil
    · cases h
  induction limit generalizing c with
  | zero =>
    have hrest : c.skipLayout.rest = [] :=
      List.eq_nil_of_length_eq_zero (by have := length_skipLayout c; omega)
    exact hend (by rw [hrest]; rfl) h
  | succ limit ih =>
    simp only [ofCursor] at h
    split_ifs at h with hpassed
    · exact hend (List.isEmpty_iff.1 hpassed) h
    · refine ih ?_ h
      have hne : c.skipLayout.rest ≠ [] := by
        intro hnil
        rw [hnil] at hpassed
        exact hpassed rfl
      have hlength := congrArg List.length (Lexeme.append_read c.skipLayout.rest)
      have hpos : 0 < (Lexeme.read c.skipLayout.rest).passed.length :=
        List.length_pos_iff.2 (mt List.isEmpty_iff.2 hpassed)
      have hskip := length_skipLayout c
      simp only [List.length_append] at hlength
      simp only [Cursor.next, Cursor.move]
      omega

end TokenStream

end StackScript
