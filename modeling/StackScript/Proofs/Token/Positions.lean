import StackScript.Proofs.Token.Division

/-!
# Cursors stay at true places

A cursor can be asked for a token, for a look at it, for a character, for layout and for an
identifier, in any order, and asked on after a fault. Whatever it is asked, it moves over characters
that stand before it and counts each of them. So at the end of every run its position is that of the
characters passed since the start of the text, and it never moves back.

## Main definitions

* `Cursor.Operation`, `Cursor.perform`, `Cursor.run`: what a cursor can be asked, once and in a row.
* `Cursor.Leads`: a cursor comes to stand where another one stands, past some characters.
* `Cursor.StandsIn`: a cursor stands where its position says.

## Main results

* `Cursor.leads_perform`, `Cursor.leads_run`: every operation, and every run, moves forward.
* `Cursor.standsIn_run`: every run ends at a true place; looking ahead changes nothing, and a token
  takes characters.
-/

namespace StackScript

open Text

/-- Every character passed counts. -/
theorem Position.offset_after (p : Position) (passed : List Char) :
    (p.after passed).offset = p.offset + passed.length := by
  induction passed generalizing p with
  | nil => rfl
  | cons c passed ih =>
    have hstep : (p.step c).offset = p.offset + 1 := by
      rw [Position.step]
      split <;> rfl
    have hpassed := ih (p.step c)
    rw [hstep] at hpassed
    rw [List.length_cons, Nat.add_comm passed.length, ← Nat.add_assoc]
    exact hpassed

namespace Cursor

/-! ### Operations -/

/-- What a cursor can be asked: to read a token, to look at it, and to move over one character, over
layout and over an identifier. -/
inductive Operation where
  | next
  | peek
  | advance
  | skipLayout
  | identifier

/-- The answer to an operation: a token or the fault in its place, a name, or nothing. -/
inductive Answer where
  | token (result : Except LexError Token)
  | name (text : String)
  | nothing

/-- The answer to an operation, and the cursor after it. -/
def perform (c : Cursor) : Operation → Answer × Cursor
  | .next => (.token c.next.1, c.next.2)
  | .peek => (.token c.peek.1, c.peek.2)
  | .advance => (.nothing, c.advance)
  | .skipLayout => (.nothing, c.skipLayout)
  | .identifier => (.name c.identifier.1, c.identifier.2)

/-- The cursor after operations in a row, some of which may fail. -/
def run (c : Cursor) : List Operation → Cursor
  | [] => c
  | operation :: operations => (c.perform operation).2.run operations

/-! ### Moving forward -/

/-- One cursor leads to another: the characters between them are passed and counted. -/
def Leads (c c' : Cursor) : Prop :=
  ∃ passed, passed ++ c'.rest = c.rest ∧ c'.position = c.position.after passed

theorem Leads.refl (c : Cursor) : c.Leads c := ⟨[], rfl, rfl⟩

theorem Leads.trans {c c' c'' : Cursor} (h : c.Leads c') (h' : c'.Leads c'') : c.Leads c'' := by
  obtain ⟨passed, hrest, hposition⟩ := h
  obtain ⟨passed', hrest', hposition'⟩ := h'
  refine ⟨passed ++ passed', by rw [List.append_assoc, hrest', hrest], ?_⟩
  rw [Position.after_append, ← hposition, hposition']

theorem leads_move {c : Cursor} {passed rest : List Char} (h : passed ++ rest = c.rest) :
    c.Leads (c.move passed rest) := ⟨passed, h, rfl⟩

theorem leads_advance (c : Cursor) : c.Leads c.advance := by
  obtain ⟨_ | ⟨ch, rest⟩, p⟩ := c
  · exact .refl _
  · exact ⟨[ch], rfl, rfl⟩

theorem leads_skipLayout (c : Cursor) : c.Leads c.skipLayout :=
  leads_move (splitLayout_eq false c.rest)

/-- A fault, too, is found past characters that are counted. -/
theorem leads_next (c : Cursor) : c.Leads c.next.2 :=
  c.leads_skipLayout.trans (leads_move (Lexeme.append_read c.skipLayout.rest))

/-- **Every operation moves forward**, or not at all. -/
theorem leads_perform (c : Cursor) (operation : Operation) :
    c.Leads (c.perform operation).2 := by
  cases operation with
  | next => exact c.leads_next
  | peek => exact .refl c
  | advance => exact c.leads_advance
  | skipLayout => exact c.leads_skipLayout
  | identifier => exact leads_move List.takeWhile_append_dropWhile

/-- **Every run moves forward**, or not at all. -/
theorem leads_run (c : Cursor) (operations : List Operation) : c.Leads (c.run operations) := by
  induction operations generalizing c with
  | nil => exact .refl c
  | cons operation operations ih => exact (c.leads_perform operation).trans (ih _)

/-! ### Places -/

theorem Leads.offset_le {c c' : Cursor} (h : c.Leads c') :
    c.position.offset ≤ c'.position.offset := by
  obtain ⟨passed, -, hposition⟩ := h
  rw [hposition, Position.offset_after]
  exact Nat.le_add_right ..

/-- A cursor stands in a text where its position says: before the rest of the text from the offset
on, and on the line and in the column at which the characters before the offset end. -/
structure StandsIn (c : Cursor) (text : List Char) : Prop where
  offset_le : c.position.offset ≤ text.length
  rest : c.rest = text.drop c.position.offset
  line : c.position.line = lineAfter (text.take c.position.offset)
  column : c.position.column = columnAfter (text.take c.position.offset)

theorem Leads.standsIn {text : List Char} {c : Cursor} (h : (start text).Leads c) :
    c.StandsIn text := by
  obtain ⟨rest, position⟩ := c
  obtain ⟨passed, hrest, hposition⟩ := h
  obtain rfl : passed ++ rest = text := hrest
  obtain rfl : position = ⟨passed.length, lineAfter passed, columnAfter passed⟩ :=
    hposition.trans (Position.after_eq passed)
  constructor <;> simp

/-- A token other than the end of the text takes at least one character. -/
theorem offset_lt_next {c : Cursor} {t : Token} (h : c.next.1 = .ok t) (hkind : t.kind ≠ .eof) :
    c.position.offset < c.next.2.position.offset := by
  -- Only the end of the text is read from no characters at all.
  have hpassed : (Lexeme.read c.skipLayout.rest).passed ≠ [] := by
    rw [next] at h
    cases hresult : (Lexeme.read c.skipLayout.rest).result with
    | error fault => simp [hresult] at h
    | ok said =>
      simp only [hresult, Except.ok.injEq] at h
      subst h
      have hrest : c.skipLayout.rest ≠ [] := by
        intro hrest
        rw [hrest] at hresult
        cases hresult
        exact hkind rfl
      exact (Lexeme.isLexeme_and_stops_of_read hrest hresult).1.ne_nil
  calc c.position.offset
      ≤ c.skipLayout.position.offset := c.leads_skipLayout.offset_le
    _ < c.skipLayout.position.offset + (Lexeme.read c.skipLayout.rest).passed.length :=
        Nat.lt_add_of_pos_right (List.length_pos_iff.2 hpassed)
    _ = c.next.2.position.offset := (Position.offset_after _ _).symm

/-- **A cursor stands at a true place after every run**, whatever it was asked and whether or not
it found faults: its offset lies in the text, and its line and column are those of the characters
before the offset. No further run moves it back. A look ahead leaves it where it stands, also at a
fault, and answers what reading answers then. Reading a token other than the end of the text moves
it on. -/
theorem standsIn_run (text : List Char) (operations : List Operation) :
    let c := (start text).run operations
    c.StandsIn text ∧
      (∀ more, c.position.offset ≤ (c.run more).position.offset) ∧
      ((c.perform .peek).2 = c ∧
        (c.perform .peek).1 = ((c.perform .peek).2.perform .next).1) ∧
      ∀ t, (c.perform .next).1 = .token (.ok t) → t.kind ≠ .eof →
        c.position.offset < (c.perform .next).2.position.offset := by
  intro c
  refine ⟨(leads_run _ operations).standsIn, fun more => (c.leads_run more).offset_le, ⟨rfl, rfl⟩,
    fun t ht hkind => offset_lt_next ?_ hkind⟩
  injection ht

/-- A text with a comment, a string over two lines and a sign that stands alone. -/
private def brokenText : List Char := "a # b\n = 'c\nd' &".toList

/-- A look ahead, the name, the token after the comment and the string, and then twice the sign
that no token starts with. -/
private def brokenRun : List Operation :=
  [.peek, .identifier, .skipLayout, .next, .advance, .next, .next, .peek, .next]

/-- The run over the broken text ends at the sign, on the third line. -/
theorem standsIn_brokenRun :
    ((start brokenText).run brokenRun).position = ⟨15, 3, 4⟩ ∧
      ((start brokenText).run brokenRun).peek.1 = .error ⟨.loneAmpersand, 3, 4⟩ ∧
      ((start brokenText).run brokenRun).StandsIn brokenText ∧
      ((start brokenText).run [.identifier]).position.offset <
        (((start brokenText).run [.identifier]).perform .next).2.position.offset :=
  ⟨by decide +kernel, by rfl, (standsIn_run brokenText brokenRun).1,
    (standsIn_run brokenText [.identifier]).2.2.2 ⟨.equals, "=", 2, 2⟩ (by rfl) (by decide)⟩

end Cursor

end StackScript
