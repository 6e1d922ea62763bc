import StackScript.Json.Writer
import StackScript.Proofs.Yaml.Cursor
import StackScript.Proofs.Yaml.Folding

/-!
# Strings between quotes

A string that is written between quotes has its quotes, its backslashes and its control characters
escaped, and is read with its escapes undone. Blanks that are not escaped are folded, and a mark
between documents must not follow a line break. So what is read may differ from what was written.

## Main definitions

* `Yaml.escaped`: the text of a string between its quotes.
* `Yaml.ReadsAs`: what a string is read as.

## Main results

* `Yaml.quotedBlanks_eq`: reading a run of blanks.
* `Yaml.exists_readsAs`: a string is read as itself if and only if it is steady.
-/

namespace StackScript.Yaml

open Text

/-! ### Characters of a string -/

/-- The text of a string between its quotes. -/
def escaped (s : List Char) : List Char := s.flatMap Json.stringChar

@[simp] theorem escaped_cons (c : Char) (s : List Char) :
    escaped (c :: s) = Json.stringChar c ++ escaped s := List.flatMap_cons

private theorem hexNumber_hexLower {n : Nat} (h : n < 0x20) :
    hexNumber? (hexLower 4 n) = some n ∧ (hexLower 4 n).length = 4 := by
  revert n
  decide

private theorem mem_hexLower {n : Nat} (h : n < 0x20) :
    ∀ ch ∈ hexLower 4 n, 0x20 ≤ ch.toNat ∧ ch.toNat < 0x7f := by
  have hall : ∀ n < 0x20,
      ((hexLower 4 n).all fun ch => 0x20 ≤ ch.toNat && ch.toNat < 0x7f) = true := by decide
  simpa using hall n h

/-- A character stands for itself or is written with a backslash that is undone. -/
theorem stringChar_cases (c : Char) :
    (Json.stringChar c = [c] ∧ c ≠ '"' ∧ c ≠ '\\' ∧ 0x20 ≤ c.toNat) ∨
      ∃ escape, Json.stringChar c = '\\' :: escape ∧ isFolded c = false ∧
        ∀ cursor tail, cursor.rest = escape ++ tail →
          escapeText cursor = .ok ([c], cursor.move escape.length) := by
  have hletter {letter : Char} (hl : escapedChar? letter = some c) (cursor : Cursor)
      (tail : List Char) (h : cursor.rest = [letter] ++ tail) :
      escapeText cursor = .ok ([c], cursor.move 1) := by
    simp only [escapeText, Cursor.head?_of_rest h, hl, Cursor.move_one]
  unfold Json.stringChar
  split
  · exact .inr ⟨['"'], rfl, by decide, hletter rfl⟩
  · exact .inr ⟨['\\'], rfl, by decide, hletter rfl⟩
  · exact .inr ⟨['n'], rfl, by decide, hletter rfl⟩
  · exact .inr ⟨['r'], rfl, by decide, hletter rfl⟩
  · exact .inr ⟨['t'], rfl, by decide, hletter rfl⟩
  · exact .inr ⟨['b'], rfl, by decide, hletter rfl⟩
  · exact .inr ⟨['f'], rfl, by decide, hletter rfl⟩
  next hquote hback _ _ _ _ _ =>
    split_ifs with hcontrol
    · obtain ⟨hvalue, hlength⟩ := hexNumber_hexLower hcontrol
      refine .inr ⟨'u' :: hexLower 4 c.toNat, rfl, ?_, fun cursor tail h => ?_⟩
      · rw [Bool.eq_false_iff]
        intro hf
        obtain rfl | rfl | rfl | rfl := isFolded_cases hf <;> exact absurd hcontrol (by decide)
      · have htake : cursor.advance.rest.take 4 = hexLower 4 c.toNat := by
          rw [Cursor.rest_advance, h, List.cons_append, List.tail_cons, List.take_left' hlength]
        have hcode : codePoint c.toNat = .ok c := by
          unfold codePoint
          rw [if_neg (by omega), if_neg (by omega), Char.ofNat_toNat]
        have hnone : escapedChar? 'u' = none := rfl
        have hwidth : escapeWidth? 'u' = some 4 := rfl
        simp only [escapeText, Cursor.head?_of_rest h, hnone, hwidth, htake, hvalue, hlength, hcode,
          List.length_cons]
        rfl
    · exact .inl ⟨rfl, hquote, hback, Nat.not_lt.1 hcontrol⟩

/-- What is not the character itself is printable and in ASCII. -/
theorem mem_stringChar {c ch : Char} (h : ch ∈ Json.stringChar c) :
    (ch = c ∧ 0x20 ≤ c.toNat) ∨ (0x20 ≤ ch.toNat ∧ ch.toNat < 0x7f) := by
  unfold Json.stringChar at h
  split at h
  iterate 7
    · simp only [List.mem_cons, List.not_mem_nil, or_false] at h
      obtain rfl | rfl := h <;> decide
  split_ifs at h with hcontrol
  · simp only [List.mem_cons] at h
    obtain rfl | rfl | h := h
    · exact .inr (by decide)
    · exact .inr (by decide)
    · exact .inr (mem_hexLower hcontrol ch h)
  · obtain rfl : ch = c := by simpa using h
    exact .inl ⟨rfl, Nat.not_lt.1 hcontrol⟩

theorem stringChar_of_isFolded {c : Char} (h : isFolded c = true) : Json.stringChar c = [c] := by
  obtain rfl | rfl | rfl | rfl := isFolded_cases h <;> rfl

/-- The characters of a string between quotes. -/
theorem mem_string {s : List Char} {ch : Char} (h : ch ∈ Json.string s) :
    0x20 ≤ ch.toNat ∧ (ch ∈ s ∨ ch.toNat < 0x7f) := by
  simp only [Json.string, List.cons_append, List.mem_cons, List.mem_append, List.mem_flatMap,
    List.not_mem_nil, or_false] at h
  obtain rfl | ⟨c, hc, hch⟩ | rfl := h
  · exact ⟨by decide, .inr (by decide)⟩
  · obtain ⟨rfl, hcontrol⟩ | ⟨hcontrol, hascii⟩ := mem_stringChar hch
    · exact ⟨hcontrol, .inl hc⟩
    · exact ⟨hcontrol, .inr hascii⟩
  · exact ⟨by decide, .inr (by decide)⟩

/-- A string between quotes has a line break if and only if one of its characters is one that is not
escaped. -/
theorem forall_mem_string_iff {s : List Char} :
    (∀ ch ∈ Json.string s, isBreak ch = false) ↔ ∀ c ∈ s, isFolded c = true → c = ' ' := by
  constructor
  · intro h c hc hfolded
    have hmem : c ∈ Json.string s := by
      simp only [Json.string, List.cons_append, List.mem_cons, List.mem_append, List.mem_flatMap]
      exact .inr (.inl ⟨c, hc, by simp [stringChar_of_isFolded hfolded]⟩)
    by_contra hne
    exact absurd (isBreak_of_isFolded hfolded hne) (by simp [h c hmem])
  · intro h ch hch
    obtain ⟨hcontrol, hmem | hascii⟩ := mem_string hch
    · by_contra hbreak
      rw [Bool.not_eq_false] at hbreak
      have hspace := h ch hmem (by rw [isFolded_eq hcontrol, hbreak, Bool.or_true])
      subst hspace
      exact absurd hbreak (by decide)
    · by_contra hbreak
      simp only [isBreak, Bool.not_eq_false, Bool.or_eq_true, beq_iff_eq] at hbreak
      obtain (((rfl | rfl) | rfl) | rfl) | rfl := hbreak <;> revert hcontrol hascii <;> decide

theorem escaped_append (s t : List Char) : escaped (s ++ t) = escaped s ++ escaped t :=
  List.flatMap_append

theorem escaped_of_isFolded {run : List Char} (h : ∀ ch ∈ run, isFolded ch = true) :
    escaped run = run := by
  induction run with
  | nil => rfl
  | cons ch run ih =>
    rw [List.forall_mem_cons] at h
    rw [escaped_cons, stringChar_of_isFolded h.1, ih h.2, List.singleton_append]

/-- A character that does not start an escape stands for itself. -/
private theorem exists_of_escaped_eq_cons {s rest tail : List Char} {ch : Char}
    (h : escaped s ++ '"' :: rest = ch :: tail) (hquote : ch ≠ '"') (hback : ch ≠ '\\') :
    ∃ s', s = ch :: s' ∧ tail = escaped s' ++ '"' :: rest := by
  cases s with
  | nil => exact absurd (List.cons.inj h).1.symm hquote
  | cons c s =>
    rw [escaped_cons] at h
    obtain ⟨hraw, -⟩ | ⟨escape, hescape, -⟩ := stringChar_cases c
    · rw [hraw] at h
      obtain ⟨rfl, rfl⟩ := List.cons.inj h
      exact ⟨s, rfl, rfl⟩
    · rw [hescape] at h
      exact absurd (List.cons.inj h).1.symm hback

/-! ### Marks between documents -/

private theorem atTriple_iff {c : Cursor} {s rest : List Char} {mark : Char}
    (hmark : mark = '-' ∨ mark = '.') (h : c.rest = escaped s ++ '"' :: rest) :
    c.atTriple mark = true ↔
      ∃ next s', s = mark :: mark :: mark :: next :: s' ∧ isFolded next = true := by
  have hraw : Json.stringChar mark = [mark] ∧ mark ≠ '"' ∧ mark ≠ '\\' := by
    obtain rfl | rfl := hmark <;> decide
  unfold Cursor.atTriple
  constructor
  · intro htriple
    split at htriple
    next hrest =>
      simp only [Bool.and_eq_true, beq_iff_eq] at htriple
      obtain ⟨⟨⟨rfl, rfl⟩, rfl⟩, hend⟩ := htriple
      rw [h] at hrest
      obtain ⟨s₁, rfl, h₁⟩ := exists_of_escaped_eq_cons hrest hraw.2.1 hraw.2.2
      obtain ⟨s₂, rfl, h₂⟩ := exists_of_escaped_eq_cons h₁.symm hraw.2.1 hraw.2.2
      obtain ⟨s₃, rfl, rfl⟩ := exists_of_escaped_eq_cons h₂.symm hraw.2.1 hraw.2.2
      cases s₃ with
      | nil => cases hend
      | cons next s' =>
        refine ⟨next, s', rfl, ?_⟩
        rw [escaped_cons] at hend
        obtain ⟨hnext, -, -, hcontrol⟩ | ⟨escape, hescape, -⟩ := stringChar_cases next
        · rw [hnext] at hend
          rw [isFolded_eq hcontrol]
          exact hend
        · rw [hescape] at hend
          cases hend
    · cases htriple
  · rintro ⟨next, s', rfl, hnext⟩
    rw [h]
    simp only [escaped_cons, hraw.1, stringChar_of_isFolded hnext, List.cons_append,
      List.nil_append, beq_self_eq_true, List.head?_cons, Bool.true_and]
    obtain rfl | rfl | rfl | rfl := isFolded_cases hnext <;> rfl

theorem atDocumentMark_eq {c : Cursor} {s rest : List Char}
    (h : c.rest = escaped s ++ '"' :: rest) : c.atDocumentMark = startsMark s := by
  rw [Bool.eq_iff_iff, Cursor.atDocumentMark, Bool.or_eq_true, atTriple_iff (.inl rfl) h,
    atTriple_iff (.inr rfl) h]
  constructor
  · rintro (⟨next, s', rfl, hnext⟩ | ⟨next, s', rfl, hnext⟩) <;> simp [startsMark, hnext]
  · intro hmark
    unfold startsMark at hmark
    split at hmark
    next a b d next s' =>
      simp only [Bool.and_eq_true, Bool.or_eq_true, beq_iff_eq] at hmark
      obtain ⟨⟨⟨rfl | rfl, rfl⟩, rfl⟩, hnext⟩ := hmark
      · exact .inl ⟨next, s', rfl, hnext⟩
      · exact .inr ⟨next, s', rfl, hnext⟩
    · cases hmark

/-! ### Runs of blanks -/

theorem lineBreak_eq {c : Cursor} {b : Char} {tail : List Char} (h : c.rest = b :: tail)
    (hb : isFolded b = true) (hne : b ≠ ' ') : c.lineBreak = ([breakChar b], c.advance) := by
  unfold Cursor.lineBreak
  rw [h]
  obtain rfl | rfl | rfl | rfl := isFolded_cases hb
  · exact absurd rfl hne
  all_goals rfl

private theorem takeWhile_spaces {c : Cursor} {n : Nat} {next : List Char}
    (h : c.rest = List.replicate n ' ' ++ next) (hnext : ∀ ch ∈ next.head?, isWhite ch = false) :
    c.takeWhile isWhite = (List.replicate n ' ', c.move n) ∧ (c.move n).rest = next := by
  have hrest := Cursor.rest_move_of_append h
  have htake := Cursor.takeWhile_eq h (by simp [isWhite]) hnext
  rw [List.length_replicate] at hrest htake
  exact ⟨htake, hrest⟩

/-- The spaces before a line break, and the line break. -/
private theorem takeWhile_break {c : Cursor} {n : Nat} {b : Char} {next : List Char}
    (hb : isFolded b = true) (hne : b ≠ ' ') (h : c.rest = List.replicate n ' ' ++ b :: next) :
    c.takeWhile isWhite = (List.replicate n ' ', c.move n) ∧ (c.move n).head? = some b ∧
      isBreak b = true ∧ (c.move n).lineBreak = ([breakChar b], c.move (n + 1)) ∧
      (c.move (n + 1)).rest = next := by
  have hwhite : isWhite b = false := by
    obtain rfl | rfl | rfl | rfl := isFolded_cases hb <;> first | rfl | exact absurd rfl hne
  obtain ⟨htake, hrest⟩ := takeWhile_spaces h (by simpa using hwhite)
  have hmove : (c.move n).advance = c.move (n + 1) := by
    rw [← Cursor.move_one, Cursor.move_move]
  refine ⟨htake, Cursor.head?_of_rest hrest, isBreak_of_isFolded hb hne, ?_, ?_⟩
  · rw [lineBreak_eq hrest hb hne, hmove]
  · rw [← hmove, Cursor.rest_advance, hrest, List.tail_cons]

private theorem move_break (c : Cursor) (n : Nat) (b : Char) (more : List Char) :
    (c.move (n + 1)).move more.length = c.move (List.replicate n ' ' ++ b :: more).length := by
  rw [Cursor.move_move, List.length_append, List.length_replicate, List.length_cons,
    Nat.add_assoc, Nat.add_comm 1]

section Runs

variable {run s rest : List Char}

private theorem atDocumentMark_spaces {c : Cursor} {n : Nat}
    (h : c.rest = List.replicate n ' ' ++ (escaped s ++ '"' :: rest)) :
    c.atDocumentMark = isCut (List.replicate n ' ') s := by
  cases n with
  | zero => simp [atDocumentMark_eq h, isCut]
  | succ n =>
    have hlast : isCut (List.replicate (n + 1) ' ') s = false := by
      simp [isCut, List.getLast?_replicate]
    rw [Cursor.atDocumentMark, Cursor.atTriple_eq_false h (by decide),
      Cursor.atTriple_eq_false h (by decide), hlast, Bool.or_false]

private theorem atDocumentMark_eq_false {c : Cursor} {first : Char} {tail : List Char}
    (h : c.rest = first :: tail) (hf : isFolded first = true) : c.atDocumentMark = false := by
  rw [Cursor.atDocumentMark, Cursor.atTriple_eq_false h, Cursor.atTriple_eq_false h,
    Bool.or_false] <;>
  · rintro rfl
    exact absurd hf (by decide)

variable (hrun : ∀ ch ∈ run, isFolded ch = true) (hs : ∀ ch ∈ s.head?, isFolded ch = false)
include hs

private theorem head_escaped {ch : Char} (h : ch ∈ (escaped s ++ '"' :: rest).head?) :
    isWhite ch = false ∧ isBreak ch = false := by
  cases s with
  | nil =>
    cases h
    decide
  | cons c s =>
    rw [escaped_cons] at h
    obtain ⟨hraw, -, -, hcontrol⟩ | ⟨escape, hescape, -⟩ := stringChar_cases c
    · rw [hraw] at h
      obtain rfl : c = ch := by simpa using h
      have hc := hs c rfl
      rwa [isFolded_eq hcontrol, Bool.or_eq_false_iff] at hc
    · rw [hescape] at h
      cases h
      decide

private theorem takeWhile_escaped {c : Cursor} {n : Nat}
    (h : c.rest = List.replicate n ' ' ++ (escaped s ++ '"' :: rest)) :
    c.takeWhile isWhite = (List.replicate n ' ', c.move n) ∧
      ∃ ch, (c.move n).head? = some ch ∧ isBreak ch = false := by
  obtain ⟨htake, hrest⟩ := takeWhile_spaces h fun ch hch => (head_escaped hs hch).1
  obtain ⟨ch, tail, htail⟩ : ∃ ch tail, escaped s ++ '"' :: rest = ch :: tail :=
    List.exists_cons_of_ne_nil (by simp)
  have hhead : ch ∈ (escaped s ++ '"' :: rest).head? := by
    rw [htail]
    rfl
  exact ⟨htake, ch, by rw [Cursor.head?, hrest]; exact hhead, (head_escaped hs hhead).2⟩

include hrun

/-- Reading the blanks after a line break. -/
theorem quotedBreaks_eq {breaks : List Char} {fuel : Nat} {c : Cursor}
    (h : c.rest = run ++ (escaped s ++ '"' :: rest)) (hfuel : run.length < fuel) :
    quotedBreaks breaks fuel c =
      if isCut run s then .error .malformed
      else .ok (breaks ++ (run.filter (· != ' ')).map breakChar, c.move run.length) := by
  induction fuel generalizing run breaks c with
  | zero => exact absurd hfuel (Nat.not_lt_zero _)
  | succ fuel ih =>
    obtain ⟨n, tail, rfl, htail, -⟩ := exists_spaces run
    unfold quotedBreaks
    cases tail with
    | nil =>
      rw [List.append_nil] at h ⊢
      obtain ⟨htake, ch, hhead, hbreak⟩ := takeWhile_escaped hs h
      rw [atDocumentMark_spaces h, Cursor.skipWhite, htake]
      simp [hhead, hbreak]
    | cons b more =>
      have hb : isFolded b = true := hrun b (by simp)
      have hne : b ≠ ' ' := by simpa using htail
      have hmark : c.atDocumentMark = false := by
        cases n with
        | zero => exact atDocumentMark_eq_false h hb
        | succ n => exact atDocumentMark_eq_false h (by decide)
      rw [List.append_assoc, List.cons_append] at h
      obtain ⟨htake, hhead, hbreak, hline, hrest⟩ := takeWhile_break hb hne h
      have hlength : more.length < fuel := by
        simp only [List.length_append, List.length_cons] at hfuel
        omega
      rw [hmark, Cursor.skipWhite, htake]
      simp only [hhead, Option.any_some, hbreak, hline, Bool.false_eq_true, if_true, if_false]
      rw [ih (fun ch hch => hrun ch (by simp [hch])) hrest hlength, isCut_of_break hne,
        move_break c n b more]
      simp [hne]

/-- Reading a run of blanks. -/
theorem quotedBlanks_eq (hne : run ≠ []) {c : Cursor}
    (h : c.rest = run ++ (escaped s ++ '"' :: rest)) :
    quotedBlanks c =
      if isCut run s then .error .malformed else .ok (foldRun run, c.move run.length) := by
  obtain ⟨n, tail, rfl, htail, hdrop⟩ := exists_spaces run
  unfold quotedBlanks foldRun
  rw [hdrop]
  cases tail with
  | nil =>
    rw [List.append_nil] at h hne ⊢
    have hcut : isCut (List.replicate n ' ') s = false := by
      rw [ne_eq, List.replicate_eq_nil_iff] at hne
      simp [isCut, List.getLast?_replicate, hne]
    obtain ⟨htake, ch, hhead, hbreak⟩ := takeWhile_escaped hs h
    rw [htake, hcut]
    simp [hhead, hbreak]
  | cons b more =>
    have hb : isFolded b = true := hrun b (by simp)
    have hspace : b ≠ ' ' := by simpa using htail
    rw [List.append_assoc, List.cons_append] at h
    obtain ⟨htake, hhead, hbreak, hline, hrest⟩ := takeWhile_break hb hspace h
    have hlength : more.length < (c.move (n + 1)).rest.length + 1 := by
      rw [hrest, List.length_append]
      omega
    have hbreaks : quotedBreaks [] _ _ = _ :=
      quotedBreaks_eq (fun ch hch => hrun ch (by simp [hch])) hs hrest hlength
    rw [htake]
    simp only [hhead, hbreak, hline, if_true, hbreaks, isCut_of_break hspace,
      move_break c n b more]
    split <;> rfl

end Runs

/-! ### Strings -/

/-- A result of reading a string is its own text if and only if the string is steady. -/
def IsReading (s : List Char) : Except Fault (List Char) → Prop
  | .ok text => text.length ≤ s.length ∧ (text = s ↔ isSteady s = true)
  | .error _ => isSteady s = false

private theorem isReading_of_not_isFolded {c : Char} {s : List Char}
    {r : Except Fault (List Char)} (hc : isFolded c = false) (h : IsReading s r) :
    IsReading (c :: s) (r.map (c :: ·)) := by
  cases r with
  | error fault => exact (isSteady_cons_of_not_isFolded s hc).trans h
  | ok text =>
    refine ⟨Nat.succ_le_succ h.1, ?_⟩
    rw [isSteady_cons_of_not_isFolded s hc, ← h.2]
    simp

private theorem isReading_run {run s : List Char} {r : Except Fault (List Char)}
    (hs : ∀ ch ∈ s.head?, isFolded ch = false) (hrun : ∀ ch ∈ run, isFolded ch = true)
    (hne : run ≠ []) (h : IsReading s r) :
    IsReading (run ++ s)
      (if isCut run s then .error .malformed else r.map (foldRun run ++ ·)) := by
  have hiff := isSteady_run_iff hs hrun hne
  split_ifs with hcut
  · rw [IsReading, Bool.eq_false_iff, ne_eq, hiff]
    simp [hcut]
  · cases r with
    | error fault =>
      rw [IsReading] at h
      show isSteady (run ++ s) = false
      rw [Bool.eq_false_iff, ne_eq, hiff]
      simp [h]
    | ok text =>
      have hlength := length_foldRun_le run
      refine ⟨?_, ?_⟩
      · rw [List.length_append, List.length_append]
        exact Nat.add_le_add hlength h.1
      · rw [hiff, ← h.2]
        simp only [hcut, and_true]
        constructor
        · -- Neither part is longer than what it is read from, so both are the same.
          intro heq
          have hsum := congrArg List.length heq
          rw [List.length_append, List.length_append] at hsum
          have := h.1
          exact List.append_inj heq (by omega)
        · rintro ⟨hfold, rfl⟩
          rw [hfold]

/-- The result of reading a string, wherever it stands between double quotes. -/
def ReadsAs (s : List Char) (r : Except Fault (List Char)) : Prop :=
  ∀ (done : List Char) (fuel : Nat) (c : Cursor) (rest : List Char),
    c.rest = escaped s ++ '"' :: rest → c.rest.length < fuel →
      quotedParts true done fuel c =
        r.map fun text => (done.reverse ++ text, c.move ((escaped s).length + 1))

private theorem readsAs_nil : ReadsAs [] (.ok []) := by
  intro done fuel c rest h hfuel
  cases fuel with
  | zero => exact absurd hfuel (Nat.not_lt_zero _)
  | succ fuel =>
    rw [quotedParts, h]
    simp [escaped, isWhite, isBreak, Except.map]

private theorem readsAs_cons {ch : Char} {s : List Char} {r : Except Fault (List Char)}
    (hch : isFolded ch = false) (h : ReadsAs s r) : ReadsAs (ch :: s) (r.map (ch :: ·)) := by
  intro done fuel c rest hrest hfuel
  cases fuel with
  | zero => exact absurd hfuel (Nat.not_lt_zero _)
  | succ fuel =>
    rw [escaped_cons, List.append_assoc] at hrest
    -- The text after the character is read in the same way, whether it is escaped or not.
    have hnext (hskip : quotedParts true done (fuel + 1) c =
        quotedParts true (ch :: done) fuel (c.move (Json.stringChar ch).length)) :
        quotedParts true done (fuel + 1) c = (r.map (ch :: ·)).map fun text =>
          (done.reverse ++ text, c.move ((escaped (ch :: s)).length + 1)) := by
      have hafter := Cursor.rest_move_of_append hrest
      have hpos : 0 < (Json.stringChar ch).length := by
        obtain ⟨hraw, -⟩ | ⟨escape, hescape, -⟩ := stringChar_cases ch
        · simp [hraw]
        · simp [hescape]
      rw [hskip, h (ch :: done) fuel _ rest hafter (by
        rw [hafter]
        rw [hrest, List.length_append] at hfuel
        omega)]
      cases r with
      | error fault => rfl
      | ok text =>
        simp [Except.map, Cursor.move_move, Nat.add_assoc]
    apply hnext
    obtain ⟨hraw, hquote, hback, hcontrol⟩ | ⟨escape, hescape, -, hread⟩ := stringChar_cases ch
    · rw [isFolded_eq hcontrol] at hch
      rw [hraw] at hrest ⊢
      rw [quotedParts, hrest]
      simp [hch, hquote, hback]
    · rw [hescape] at hrest ⊢
      have hafter : c.advance.rest = escape ++ (escaped s ++ '"' :: rest) := by
        rw [Cursor.rest_advance, hrest, List.cons_append, List.tail_cons]
      rw [quotedParts, hrest]
      simp only [List.cons_append, hread c.advance _ hafter]
      rw [← Cursor.move_one, Cursor.move_move, Nat.add_comm]
      rfl

private theorem readsAs_run {run s : List Char} {r : Except Fault (List Char)}
    (hs : ∀ ch ∈ s.head?, isFolded ch = false) (hrun : ∀ ch ∈ run, isFolded ch = true)
    (hne : run ≠ []) (h : ReadsAs s r) :
    ReadsAs (run ++ s) (if isCut run s then .error .malformed else r.map (foldRun run ++ ·)) := by
  intro done fuel c rest hrest hfuel
  rw [escaped_append, escaped_of_isFolded hrun, List.append_assoc] at hrest
  obtain ⟨first, more, rfl⟩ := List.exists_cons_of_ne_nil hne
  have hblank : (isWhite first || isBreak first) = true := by
    obtain rfl | rfl | rfl | rfl := isFolded_cases (hrun first (by simp)) <;> rfl
  cases fuel with
  | zero => exact absurd hfuel (Nat.not_lt_zero _)
  | succ fuel =>
    have hblanks := quotedBlanks_eq hrun hs hne hrest
    have hafter := Cursor.rest_move_of_append hrest
    have hlength : (c.move (first :: more).length).rest.length < fuel := by
      rw [hafter]
      rw [hrest, List.length_append, List.length_cons] at hfuel
      omega
    rw [quotedParts, hrest]
    simp only [List.cons_append, hblank, if_true, hblanks]
    split_ifs
    · rfl
    · have hnext := h ((foldRun (first :: more)).reverse ++ done) fuel _ rest hafter hlength
      refine hnext.trans ?_
      cases r with
      | error fault => rfl
      | ok text =>
        have hsize : (escaped (first :: (more ++ s))).length =
            (first :: more).length + (escaped s).length := by
          rw [← List.cons_append, escaped_append, escaped_of_isFolded hrun, List.length_append]
        simp only [Except.map, hsize, Cursor.move_move, Nat.add_assoc, List.reverse_append,
          List.reverse_reverse, List.append_assoc]

/-- Every string is read as something, and as itself if and only if it is steady. -/
theorem exists_readsAs (s : List Char) : ∃ r, ReadsAs s r ∧ IsReading s r := by
  induction hlength : s.length using Nat.strongRecOn generalizing s with
  | ind n ih =>
    cases s with
    | nil => exact ⟨.ok [], readsAs_nil, Nat.le_refl _, by simp [isSteady]⟩
    | cons ch s =>
      by_cases hch : isFolded ch = true
      · have hsplit : (ch :: s).takeWhile isFolded ++ (ch :: s).dropWhile isFolded = ch :: s :=
          List.takeWhile_append_dropWhile
        have hrun : ∀ c ∈ (ch :: s).takeWhile isFolded, isFolded c = true := fun c hc =>
          List.mem_takeWhile_imp hc
        have hne : (ch :: s).takeWhile isFolded ≠ [] := by simp [hch]
        have hs : ∀ c ∈ ((ch :: s).dropWhile isFolded).head?, isFolded c = false := by
          intro c hc
          have hdrop := List.head?_dropWhile_not isFolded (ch :: s)
          rwa [Option.mem_def.1 hc] at hdrop
        have hshort : ((ch :: s).dropWhile isFolded).length < n := by
          have hsum := congrArg List.length hsplit
          have hpos := List.length_pos_iff.2 hne
          rw [List.length_append] at hsum
          omega
        obtain ⟨r, hread, hresult⟩ := ih _ hshort _ rfl
        rw [← hsplit]
        exact ⟨_, readsAs_run hs hrun hne hread, isReading_run hs hrun hne hresult⟩
      · obtain ⟨r, hread, hresult⟩ := ih s.length (by simp [← hlength]) s rfl
        rw [Bool.not_eq_true] at hch
        exact ⟨_, readsAs_cons hch hread, isReading_of_not_isFolded hch hresult⟩

/-- A string with its quotes is read as its result, and the cursor moves to its end. -/
theorem ReadsAs.quotedText_eq {s rest : List Char} {r : Except Fault (List Char)}
    (h : ReadsAs s r) {c : Cursor} (hrest : c.rest = Json.string s ++ rest) :
    quotedText true c.advance = r.map fun text => (text, c.move (Json.string s).length) := by
  have hadvance : c.advance.rest = escaped s ++ '"' :: rest := by
    rw [Cursor.rest_advance, hrest]
    simp [Json.string, escaped]
  have hsize : (Json.string s).length = 1 + ((escaped s).length + 1) := by
    simp [Json.string, escaped, Nat.add_comm]
  rw [quotedText, h [] _ _ rest hadvance (Nat.lt_succ_self _), hsize, ← Cursor.move_move c 1]
  rfl

end StackScript.Yaml
