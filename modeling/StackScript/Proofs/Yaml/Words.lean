import StackScript.Proofs.Yaml.Flow

/-!
# Plain scalars between brackets

A word of letters, digits, points and signs that starts with a letter or a digit, perhaps after a
minus sign, is read as a plain scalar, up to the mark or the line break after it.

## Main definitions

* `Yaml.TokenState.IsWord`: words that are plain scalars.
* `Yaml.TokenState.IsTail`: what may stand between a word and the mark after it.

## Main results

* `Yaml.TokenState.InFlow.exists_word`: reading a word.
-/

namespace StackScript.Yaml.TokenState

variable {s : TokenState} {flow : Nat} {tokens : List Token} {gap next rest : List Char}

/-- The characters of numbers and words. -/
def isWordChar (c : Char) : Bool := c.isAlphanum || c == '.' || c == '+' || c == '-'

/-- The texts of numbers and words: they start with a letter or a digit, perhaps after a minus
sign. -/
def IsWord (w : List Char) : Prop :=
  (∀ c ∈ w, isWordChar c = true) ∧
    ∃ (first : Char) (more : List Char), first.isAlphanum = true ∧
      (w = first :: more ∨ w = '-' :: first :: more)

private theorem ne_of_isWordChar {c d : Char} (hc : isWordChar c = true)
    (hd : isWordChar d = false) : c ≠ d := by
  rintro rfl
  exact absurd hc (by simp [hd])

private theorem not_blank_of_isWordChar {c : Char} (h : isWordChar c = true) :
    isWhite c = false ∧ isBreak c = false ∧ isFlowMark c = false := by
  have hne : ∀ d ∈ [' ', '\t', '\n', '\r', '\u0085', '\u2028', '\u2029', ',', '[', ']', '{',
      '}'], c ≠ d := by
    intro d hd
    refine ne_of_isWordChar h ?_
    simpa using (List.all_eq_true (p := fun d => !isWordChar d)).1 (by decide) d hd
  simp only [List.forall_mem_cons] at hne
  simp [isWhite, isBreak, isFlowMark, hne]

private theorem isSolid_of_isWordChar {c : Char} (h : isWordChar c = true) : isSolid c = true := by
  have hne {d : Char} (hd : isWordChar d = false) : c ≠ d := ne_of_isWordChar h hd
  simp [isSolid, (not_blank_of_isWordChar h).2.1, hne (d := ' ') (by decide),
    hne (d := '#') (by decide), hne (d := byteOrderMark) (by decide)]

/-- A word goes on up to a blank, a line feed or a mark. -/
private theorem plainRun_eq {w : List Char} (hw : ∀ c ∈ w, isWordChar c = true)
    (hnext : ∀ ch ∈ next.head?, isWhite ch = true ∨ isBreak ch = true ∨ isFlowMark ch = true) :
    plainRun true (w ++ next) = w := by
  induction w with
  | nil =>
    cases next with
    | nil => rfl
    | cons ch next =>
      obtain h | h | h := hnext ch rfl <;> simp [plainRun, h]
  | cons c w ih =>
    rw [List.forall_mem_cons] at hw
    obtain ⟨hwhite, hbreak, hmark⟩ := not_blank_of_isWordChar hw.1
    have hcolon : c ≠ ':' := ne_of_isWordChar hw.1 (by decide)
    have hquestion : c ≠ '?' := ne_of_isWordChar hw.1 (by decide)
    simp [plainRun, hwhite, hbreak, hmark, hcolon, hquestion, ih hw.2]

private theorem plainBreaks_eq {c : Cursor} {n fuel : Nat} {ch : Char}
    (hch : ch ≠ ' ' ∧ isBreak ch = false) (h : c.rest = List.replicate n ' ' ++ ch :: rest)
    (hfuel : n ≤ fuel) : plainBreaks [] fuel c = (some [], c.move n) := by
  induction fuel generalizing c n with
  | zero =>
    obtain rfl : n = 0 := Nat.le_zero.1 hfuel
    rfl
  | succ fuel ih =>
    cases n with
    | zero =>
      rw [plainBreaks, Cursor.head?_of_rest h]
      simp [hch, Cursor.move]
    | succ n =>
      have hrest : c.advance.rest = List.replicate n ' ' ++ ch :: rest := by
        rw [Cursor.rest_advance, h, List.replicate_succ, List.cons_append, List.tail_cons]
      rw [List.replicate_succ, List.cons_append] at h
      rw [plainBreaks, Cursor.head?_of_rest h]
      simp [ih hrest (Nat.le_of_succ_le_succ hfuel), Cursor.move]

/-- The layout after a scalar. -/
def IsTail (tail : List Char) : Prop := tail = [] ∨ ∃ level, tail = Json.newline level

theorem isLayout_newline (level : Nat) : ∀ ch ∈ Json.newline level, isLayout ch = true := by
  simp [Json.newline, isLayout]

private theorem ne_of_isFlowMark {ch : Char} (h : isFlowMark ch = true) :
    ch ≠ ' ' ∧ ch ≠ '#' ∧ ch ≠ '-' ∧ ch ≠ '.' ∧ isBreak ch = false := by
  simp only [isFlowMark, Bool.or_eq_true, beq_iff_eq] at h
  obtain (((rfl | rfl) | rfl) | rfl) | rfl := h <;> decide

private theorem takeWhile_space_eq {c : Cursor} {ch : Char} (hch : ch ≠ ' ')
    (h : c.rest = ch :: rest) : c.takeWhile (· == ' ') = ([], c) :=
  Cursor.takeWhile_eq (h.trans (List.nil_append _).symm) (by simp) (by simpa using hch)

/-- Right before a mark there are no blanks. -/
private theorem plainBlanks_of_mark {c : Cursor} {ch : Char} (hch : isFlowMark ch = true)
    (h : c.rest = ch :: rest) : plainBlanks c = ([], c, false) := by
  obtain ⟨hspace, -, -, -, hbreak⟩ := ne_of_isFlowMark hch
  rw [plainBlanks, takeWhile_space_eq hspace h]
  simp [Cursor.head?_of_rest h, hbreak]

/-- No mark between documents starts an indented line that goes on with a mark of a collection. -/
private theorem atDocumentMark_indented {c : Cursor} {ch : Char} {n : Nat}
    (hch : isFlowMark ch = true) (h : c.rest = List.replicate n ' ' ++ ch :: rest) :
    c.atDocumentMark = false := by
  have hfirst {d : Char} {more : List Char} (hd : c.rest = d :: more) (hne : d ≠ '-' ∧ d ≠ '.') :
      c.atDocumentMark = false := by
    rw [Cursor.atDocumentMark, Cursor.atTriple_eq_false hd hne.1,
      Cursor.atTriple_eq_false hd hne.2, Bool.or_false]
  obtain ⟨-, -, hdash, hdot, -⟩ := ne_of_isFlowMark hch
  cases n with
  | zero => exact hfirst h ⟨hdash, hdot⟩
  | succ n => exact hfirst h (by decide)

/-- A line break and the indentation before a mark are read as one space. -/
private theorem plainBlanks_of_newline {c : Cursor} {ch : Char} {level : Nat}
    (hch : isFlowMark ch = true) (h : c.rest = Json.newline level ++ ch :: rest) :
    ∃ cursor, plainBlanks c = ([' '], cursor, true) ∧ cursor.rest = ch :: rest := by
  obtain ⟨hspace, -, -, -, hbreak⟩ := ne_of_isFlowMark hch
  have hspaces : c.takeWhile (· == ' ') = ([], c) := takeWhile_space_eq (by decide) h
  have hline : c.lineBreak = (['\n'], c.advance) := by
    unfold Cursor.lineBreak
    rw [h]
    rfl
  have hindented : c.advance.rest = List.replicate (2 * level) ' ' ++ ch :: rest := by
    rw [Cursor.rest_advance, h, Json.newline, List.cons_append, List.tail_cons]
  have hbreaks : plainBreaks [] c.advance.rest.length c.advance =
      (some [], c.advance.move (2 * level)) :=
    plainBreaks_eq ⟨hspace, hbreak⟩ hindented (by rw [hindented]; simp)
  have hrest := Cursor.rest_move_of_append hindented
  rw [List.length_replicate] at hrest
  refine ⟨c.advance.move (2 * level), ?_, hrest⟩
  rw [plainBlanks, hspaces]
  simp [-Cursor.rest_advance, Cursor.head?_of_rest h, hline,
    atDocumentMark_indented hch hindented, hbreaks, folded, isBreak]

/-- A word is read up to the next mark, with the layout before it. -/
private theorem plainText_eq {w tail : List Char} {c : Cursor} {ch : Char} (indent : Nat)
    (hw : IsWord w) (htail : IsTail tail) (hch : isFlowMark ch = true)
    (h : c.rest = w ++ (tail ++ ch :: rest)) :
    ∃ cursor broken, plainText true indent c = (w, cursor, broken) ∧ cursor.rest = ch :: rest := by
  have hnext : ∀ d ∈ (tail ++ ch :: rest).head?,
      isWhite d = true ∨ isBreak d = true ∨ isFlowMark d = true := by
    obtain rfl | ⟨level, rfl⟩ := htail
    · simp [hch]
    · simp [Json.newline, isBreak]
  have hhead : (c.head? == some '#') = false := by
    obtain ⟨first, more, hfirst, rfl | rfl⟩ := hw.2
    · rw [Cursor.head?_of_rest h]
      simpa using ne_of_isWordChar (hw.1 first (by simp)) (by decide)
    · rw [Cursor.head?_of_rest h]
      rfl
  have hne : w ≠ [] := by
    obtain ⟨first, more, -, rfl | rfl⟩ := hw.2 <;> simp
  obtain ⟨fuel, hfuel⟩ : ∃ fuel, c.rest.length = fuel + 1 :=
    Nat.exists_eq_succ_of_ne_zero (by simp [h])
  have hafter := Cursor.rest_move_of_append h
  -- After the word nothing more of it follows, also after the layout.
  have hstop (blanks : List Char) (broken : Bool) (fuel : Nat) (cursor : Cursor)
      (hcursor : cursor.rest = ch :: rest) :
      plainParts true indent w.reverse blanks broken fuel cursor = (w, cursor, broken) := by
    cases fuel with
    | zero => simp [plainParts]
    | succ fuel => simp [plainParts, hcursor, plainRun, hch]
  have hpart : plainText true indent c =
      let p := plainBlanks (c.move w.length)
      if p.1.isEmpty || p.2.1.head? == some '#' then (w, p.2)
      else plainParts true indent w.reverse p.1 p.2.2 fuel p.2.1 := by
    rw [plainText, hfuel, plainParts, hhead, h, plainRun_eq hw.1 hnext]
    simp [hne]
  rw [hpart]
  obtain rfl | ⟨level, rfl⟩ := htail
  · rw [List.nil_append] at hafter
    refine ⟨c.move w.length, false, ?_, hafter⟩
    rw [plainBlanks_of_mark hch hafter]
    rfl
  · obtain ⟨cursor, hblanks, hrest⟩ := plainBlanks_of_newline hch hafter
    refine ⟨cursor, true, ?_, hrest⟩
    rw [hblanks]
    simp [Cursor.head?_of_rest hrest, ne_of_isFlowMark hch, hstop _ _ _ _ hrest]

private theorem token_word {first : Char} (hfirst : first.isAlphanum = true)
    (h : s.cursor.rest = first :: rest) (after : Option Char) : s.token first after = s.plain := by
  have hne {d : Char} (hd : d.isAlphanum = false) : first ≠ d := by
    rintro rfl
    exact absurd hfirst (by simp [hd])
  have hword : isWordChar first = true := by simp [isWordChar, hfirst]
  obtain ⟨hwhite, hbreak, -⟩ := not_blank_of_isWordChar hword
  have hindicator : first ∉ indicators := by
    intro hmem
    have hall : ∀ d ∈ indicators, d.isAlphanum = false := by
      simpa using show (indicators.all fun d => !d.isAlphanum) = true by decide
    exact hne (hall first hmem) rfl
  have hplain : s.startsPlain first after = true := by
    simp [startsPlain, hwhite, hbreak, hindicator]
  rw [token_eq h ⟨hne (by decide), hne (by decide), hne (by decide)⟩, hplain]
  have hmark {d : Char} (hd : d ∈ indicators) : (first == d) = false := by
    rw [beq_eq_false_iff_ne]
    rintro rfl
    exact hindicator hd
  simp only [hmark (d := '[') (by decide), hmark (d := '{') (by decide),
    hmark (d := ']') (by decide), hmark (d := '}') (by decide), hmark (d := ',') (by decide),
    hmark (d := '?') (by decide), hmark (d := ':') (by decide), hmark (d := '*') (by decide),
    hmark (d := '&') (by decide), hmark (d := '!') (by decide), hmark (d := '|') (by decide),
    hmark (d := '>') (by decide), hmark (d := '\'') (by decide), hmark (d := '"') (by decide),
    Bool.false_and, Bool.false_eq_true, if_false, if_true]

private theorem token_minus {first : Char} (hfirst : first.isAlphanum = true)
    (h : s.cursor.rest = '-' :: first :: rest) : s.token '-' (some first) = s.plain := by
  have hword : isWordChar first = true := by simp [isWordChar, hfirst]
  obtain ⟨hwhite, hbreak, -⟩ := not_blank_of_isWordChar hword
  have hend : endsWord (some first) = false := by simp [endsWord, hwhite, hbreak]
  have hdash : s.cursor.atTriple '-' = false := by
    have hne : first ≠ '-' := by
      rintro rfl
      exact absurd hfirst (by decide)
    unfold Cursor.atTriple
    rw [h]
    cases rest <;> simp [hne]
  unfold token
  simp [hdash, Cursor.atTriple_eq_false h (show '-' ≠ '.' by decide), hend, startsPlain]

namespace InFlow

/-- A word, with the layout after it if there is any. -/
theorem exists_word {w tail : List Char} {ch : Char} (h : InFlow s flow tokens) (hflow : flow ≠ 0)
    (hgap : ∀ ch ∈ gap, isLayout ch = true) (hw : IsWord w) (htail : IsTail tail)
    (hch : isFlowMark ch = true) (hrest : s.cursor.rest = gap ++ (w ++ (tail ++ ch :: rest))) :
    ∃ t, Advances s t ∧ InFlow t flow (tokens ++ [.scalar w true]) ∧
      t.cursor.rest = ch :: rest := by
  have hplain (s' : TokenState) (hs' : InFlow s' flow tokens)
      (hrest' : s'.cursor.rest = w ++ (tail ++ ch :: rest)) :
      ∃ t, s'.plain = .ok t ∧ InFlow t flow (tokens ++ [.scalar w true]) ∧
        t.cursor.rest = ch :: rest := by
    obtain ⟨pending, hsave, hpending, -⟩ := hs'.saveKey_eq
    obtain ⟨cursor, broken, htext, hcursor⟩ := plainText_eq s'.innerColumn hw htail hch hrest'
    have hemit := hpending.emit (show Token.scalar w true ≠ .streamEnd by simp)
    refine ⟨_, ?_, hemit.of_pending cursor broken hemit.optional, hcursor⟩
    have hinner : (s'.flowLevel != 0) = true := by simpa [hs'.flowLevel_eq] using hflow
    have hsaved : s'.plain = .ok
        (let found := plainText (s'.flowLevel != 0) s'.innerColumn s'.cursor
        { ({ s' with pending } : TokenState).emit (.scalar found.1 true) with
          cursor := found.2.1, keyAllowed := found.2.2 }) := by
      rw [plain, hsave]
      rfl
    rw [hsaved, hinner, htext]
  obtain ⟨first, more, hfirst, rfl | rfl⟩ := hw.2
  · have hsolid := isSolid_of_isWordChar (hw.1 first List.mem_cons_self)
    refine h.exists_advances hgap hsolid hrest fun s' hs' hrest' _ => ?_
    obtain ⟨t, ht, hinflow, hafter⟩ := hplain s' hs' hrest'
    refine ⟨t, (token_word hfirst hrest' _).trans ht, ?_, hinflow, hafter⟩
    rw [hafter]
    simp only [List.append_eq, List.length_append, List.length_cons]
    omega
  · refine h.exists_advances hgap (by decide) hrest fun s' hs' hrest' _ => ?_
    obtain ⟨t, ht, hinflow, hafter⟩ := hplain s' hs' hrest'
    refine ⟨t, (token_minus hfirst hrest').trans ht, ?_, hinflow, hafter⟩
    rw [hafter]
    simp only [List.append_eq, List.cons_append, List.length_append, List.length_cons]
    omega

end InFlow

end StackScript.Yaml.TokenState
