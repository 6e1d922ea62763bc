import StackScript.Proofs.Grammar.Congruence

/-!
# Where reading fails

A reader fails at a token that it has seen, or at a fault of the text. So if something is known of
the places of all tokens up to the first fault, and of the place of that fault, then it is known of
the place of every error.

## Main definitions

* `Places`: what is known of the tokens of a text and of its faults.
* `Places.Holds`, `Places.Marks`: what is known of the tokens of a state, and of an error.
* `Reader.Located`: a step that fails at known places only.

## Main results

* `Reader.locating`: what is put together from such steps fails at known places only.
* `Places.marks_of_parseScript`: every error of reading a script is at a known place.
-/

namespace StackScript

/-! ### Known places -/

/-- What is known of the tokens of a text and of its faults. -/
structure Places where
  token : Token → Prop
  fault : LexError → Prop

namespace Places

variable (known : Places)

/-- Answers with known places, up to the first fault. -/
def Answers : List (Except LexError Token) → Prop
  | [] => True
  | .ok t :: items => known.token t ∧ Answers items
  | .error e :: _ => known.fault e

/-- A stream whose answers, up to the first fault, have known places. -/
def Stream (s : TokenStream) : Prop := known.Answers (s.items ++ [s.last])

/-- The current token and those that follow it have known places. -/
structure Holds (s : ReaderState) : Prop where
  current : known.token s.current
  following : known.Stream s.following

/-- An error is at the place of a known token or fault. An integer that is too long has no place. -/
def Marks : ScriptError → Prop
  | .lex e => known.fault e
  | .parse e => ∃ t, known.token t ∧ e.line = t.line ∧ e.column = t.column
  | .integerTooLong => True

/-- What a step that fails at known places only may come to. -/
def Admits {α : Type} : Except ScriptError α × ReaderState → Prop
  | (.ok _, s) => known.Holds s
  | (.error e, _) => known.Marks e

variable {known}

theorem answers_map_ok_append {ts : List Token} {items : List (Except LexError Token)} :
    known.Answers (ts.map .ok ++ items) ↔ (∀ t ∈ ts, known.token t) ∧ known.Answers items := by
  induction ts with
  | nil => simp
  | cons t ts ih => simp [Answers, ih, and_assoc]

theorem Stream.of_head_error {s : TokenStream} {e : LexError} (he : s.head = .error e)
    (h : known.fault e) : known.Stream s := by
  obtain ⟨items, last⟩ := s
  cases items with
  | nil =>
    obtain rfl : last = .error e := he
    exact h
  | cons item items =>
    obtain rfl : item = .error e := he
    exact h

theorem Stream.head_ok {s : TokenStream} {t : Token} (h : known.Stream s) (ht : s.head = .ok t) :
    known.token t ∧ known.Stream s.tail := by
  obtain ⟨items, last⟩ := s
  cases items with
  | nil =>
    -- A stream without items repeats its last answer.
    obtain rfl : last = .ok t := ht
    exact ⟨h.1, h⟩
  | cons item items =>
    obtain rfl : item = .ok t := ht
    exact h

theorem Stream.head_error {s : TokenStream} {e : LexError} (h : known.Stream s)
    (he : s.head = .error e) : known.fault e := by
  obtain ⟨items, last⟩ := s
  cases items with
  | nil =>
    obtain rfl : last = .error e := he
    exact h
  | cons item items =>
    obtain rfl : item = .error e := he
    exact h

end Places

namespace Reader

variable {known : Places} {α β : Type}

/-- A step that fails at known places only, and leaves known places ahead otherwise. -/
def Located (known : Places) (step : Reader α) : Prop :=
  ∀ s, known.Holds s → known.Admits (step.run.run s)

namespace Located

variable {step : Reader α} {f : α → Reader β}

theorem bind (h : Located known step) (hf : ∀ a, Located known (f a)) :
    Located known (step >>= f) := by
  intro s hs
  have hstep := h s hs
  cases hrun : step.run.run s with
  | mk result t =>
    rw [hrun] at hstep
    cases result with
    | error e =>
      rw [run_bind_error hrun]
      exact hstep
    | ok a =>
      rw [run_bind_ok hrun]
      exact hf a t hstep

/-- The level does not matter. -/
theorem within (h : Located known step) : Located known (within step) := by
  intro s hs
  have hstep := h { s with depth := s.depth + 1 } ⟨hs.current, hs.following⟩
  have hrun : (Reader.within step).run.run s =
      ((step.run.run { s with depth := s.depth + 1 }).1,
        { (step.run.run { s with depth := s.depth + 1 }).2 with
          depth := (step.run.run { s with depth := s.depth + 1 }).2.depth - 1 }) := rfl
  rw [hrun]
  cases hinner : step.run.run { s with depth := s.depth + 1 } with
  | mk result t =>
    rw [hinner] at hstep
    cases result with
    | error e => exact hstep
    | ok a => exact ⟨hstep.current, hstep.following⟩

/-- The current token is passed, or the fault after it is reported. -/
theorem advance {f : Token → Reader β} (hf : ∀ t, known.token t → Located known (f t)) :
    Located known (advance >>= f) := by
  intro s hs
  by_cases heof : s.current.kind = .eof
  · rw [run_bind_ok (run_advance_eof heof)]
    exact hf s.current hs.current _ ⟨hs.current, hs.following⟩
  · cases hnext : s.following.head with
    | ok t =>
      rw [run_bind_ok (run_advance_ok heof hnext)]
      obtain ⟨ht, hmore⟩ := hs.following.head_ok hnext
      exact hf s.current hs.current _ ⟨ht, hmore⟩
    | error e =>
      have hfault := run_advance_error heof hnext
      cases hrun : Reader.advance.run.run s with
      | mk result t =>
        rw [hrun] at hfault
        obtain rfl : result = .error (.lex e) := hfault
        rw [run_bind_error hrun]
        exact hs.following.head_error hnext

theorem peek : Located known peek := by
  intro s hs
  rw [run_peek]
  cases hnext : s.following.head with
  | ok t => exact hs
  | error e => exact hs.following.head_error hnext

end Located

/-- That a step fails at known places only carries over to what is put together from such steps: a
token is refused only where it has been looked at or passed. -/
def locating (known : Places) : Congruence where
  rel step _ := Located known step
  known := known.token
  pure _ := fun _ hs => hs
  bind h hf := h.bind hf
  get _ hs := hs
  current hf := fun s hs => hf s.current hs.current s hs
  advance := .advance
  peek := .peek
  failAt ht _ := fun _ _ => ⟨_, ht, rfl, rfl⟩
  tooLong := fun _ _ => trivial
  within := .within
  tooDeep _ _ := fun s hs => ⟨s.current, hs.current, rfl, rfl⟩

end Reader

namespace Places

variable {known : Places} {text : List Char}

theorem holds_of_start {s : ReaderState} (hknown : known.Stream (.ofText text))
    (h : ReaderState.start text = .ok s) : known.Holds s := by
  unfold ReaderState.start at h
  cases hfirst : (TokenStream.ofText text).head with
  | error e =>
    simp only [hfirst] at h
    cases h
  | ok first =>
    simp only [hfirst] at h
    cases h
    obtain ⟨hplace, hmore⟩ := hknown.head_ok hfirst
    exact ⟨hplace, hmore⟩

theorem fault_of_start {e : LexError} (hknown : known.Stream (.ofText text))
    (h : ReaderState.start text = .error e) : known.fault e := by
  unfold ReaderState.start at h
  cases hfirst : (TokenStream.ofText text).head with
  | error e' =>
    simp only [hfirst] at h
    cases h
    exact hknown.head_error hfirst
  | ok first =>
    simp only [hfirst] at h
    cases h

/-- If the places of the tokens of a text are known up to its first fault, then the place of every
error of reading it is known. -/
theorem marks_of_parseScript {limit : Nat} {e : ScriptError} (hknown : known.Stream (.ofText text))
    (h : parseScript limit text = .error e) : known.Marks e := by
  unfold parseScript at h
  cases hstart : ReaderState.start text with
  | error fault =>
    rw [hstart] at h
    cases h
    exact fault_of_start hknown hstart
  | ok s =>
    rw [hstart] at h
    dsimp only at h
    have htemplate := (Reader.locating known).rel_template (Nat.le_refl limit) s
      (holds_of_start hknown hstart)
    cases hrun : (Reader.template limit).run.run s with
    | mk result t =>
      rw [hrun] at h htemplate
      obtain rfl : result = .error e := h
      exact htemplate

end Places

end StackScript
