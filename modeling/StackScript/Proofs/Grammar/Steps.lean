import StackScript.Grammar.Script

/-!
# Steps of a reader

What the basic steps of a reader do to its state, and how steps in a row are taken apart.

## Main results

* `Reader.run_bind_ok`, `Reader.exists_of_run_bind`: a step after one that succeeds.
* `Reader.run_advance_ok`, `Reader.run_peek`: moving on, and looking ahead.
-/

namespace StackScript.Reader

variable {α β : Type}

theorem run_bind_ok {m : Reader α} {f : α → Reader β} {s t : ReaderState} {a : α}
    (h : m.run.run s = (.ok a, t)) : (m >>= f).run.run s = (f a).run.run t := by
  simp only [ExceptT.run_bind, StateT.run_bind, h]
  rfl

theorem exists_of_run_bind {m : Reader α} {f : α → Reader β} {s u : ReaderState} {b : β}
    (h : (m >>= f).run.run s = (.ok b, u)) :
    ∃ a t, m.run.run s = (.ok a, t) ∧ (f a).run.run t = (.ok b, u) := by
  cases hm : m.run.run s with
  | mk r t =>
    cases r with
    | error e =>
      simp only [ExceptT.run_bind, StateT.run_bind, hm] at h
      cases h
    | ok a => exact ⟨a, t, rfl, run_bind_ok hm ▸ h⟩

theorem run_get (s : ReaderState) : (get : Reader ReaderState).run.run s = (.ok s, s) := rfl

theorem run_current (s : ReaderState) : current.run.run s = (.ok s.current, s) := rfl

theorem run_peek (s : ReaderState) : peek.run.run s = (s.following.head.mapError .lex, s) := by
  unfold peek
  rw [run_bind_ok (run_get s)]
  cases s.following.head <;> rfl

theorem run_advance_eof {s : ReaderState} (h : s.current.kind = .eof) :
    advance.run.run s = (.ok s.current, { s with previous := s.current }) := by
  unfold advance
  rw [run_bind_ok (run_get s), if_pos h]
  rfl

theorem run_advance_ok {s : ReaderState} {t : Token} (h : s.current.kind ≠ .eof)
    (hn : s.following.head = .ok t) :
    advance.run.run s = (.ok s.current,
      { s with current := t, previous := s.current, following := s.following.tail }) := by
  unfold advance
  rw [run_bind_ok (run_get s), if_neg h, hn]
  rfl

theorem run_advance_error {s : ReaderState} {e : LexError} (h : s.current.kind ≠ .eof)
    (hn : s.following.head = .error e) : (advance.run.run s).1 = .error (.lex e) := by
  unfold advance
  rw [run_bind_ok (run_get s), if_neg h, hn]
  rfl

/-- A step inside succeeds where the step itself does one level further in. -/
theorem run_within_ok {m : Reader α} {s t : ReaderState} {a : α}
    (h : m.run.run { s with depth := s.depth + 1 } = (.ok a, t)) :
    (within m).run.run s = (.ok a, { t with depth := t.depth - 1 }) := by
  have hrun : (within m).run.run s = ((m.run.run { s with depth := s.depth + 1 }).1,
      { (m.run.run { s with depth := s.depth + 1 }).2 with
        depth := (m.run.run { s with depth := s.depth + 1 }).2.depth - 1 }) := rfl
  rw [hrun, h]

theorem exists_of_run_within {m : Reader α} {s u : ReaderState} {a : α}
    (h : (within m).run.run s = (.ok a, u)) :
    ∃ t, m.run.run { s with depth := s.depth + 1 } = (.ok a, t) ∧
      u = { t with depth := t.depth - 1 } := by
  cases hm : m.run.run { s with depth := s.depth + 1 } with
  | mk r t =>
    have hrun : (within m).run.run s = (r, { t with depth := t.depth - 1 }) := by
      have : (within m).run.run s = ((m.run.run { s with depth := s.depth + 1 }).1,
        { (m.run.run { s with depth := s.depth + 1 }).2 with
          depth := (m.run.run { s with depth := s.depth + 1 }).2.depth - 1 }) := rfl
      rw [this, hm]
    rw [hrun] at h
    cases h
    exact ⟨t, rfl, rfl⟩

/-- A step one level too deep never succeeds. -/
theorem run_tooDeep_ne_ok {limit : Nat} {s t : ReaderState} {a : α} :
    (tooDeep limit : Reader α).run.run s ≠ (.ok a, t) := by
  intro h
  obtain ⟨_, _, -, h⟩ := exists_of_run_bind h
  obtain ⟨_, _, -, h⟩ := exists_of_run_bind h
  cases h

end StackScript.Reader
