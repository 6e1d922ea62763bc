import StackScript.Proofs.Grammar.Congruence
import StackScript.Proofs.Grammar.Passing
import StackScript.Proofs.Grammar.Readable
import StackScript.Proofs.Outcome

/-!
# Reading goes forward

A step that succeeds has passed tokens without faults, and stands before what follows them. This
carries over from the handling of tokens to all rules. A statement passes at least one token, so the
bound on the number of statements cuts none off: a script that is read is read up to the end of
input, and there is no fault in it.

## Main definitions

* `Reader.Onward`: a state that is further on than another one.
* `Reader.ahead`: the number of tokens ahead.
* `Reader.forward`: steps that go forward, as a relation that carries over.

## Main results

* `Reader.ahead_lt_of_statement`: a statement passes at least one token.
* `exists_run_of_parseScript`: a script is read up to the end of input.
* `exists_ofText_of_parseScript`: the tokens of a script that is read have no faults.
-/

namespace StackScript

namespace Reader

/-- A state is further on than another one: tokens without faults have been passed in between, and
the last of them is the current one, unless that is the end of input. -/
structure Onward (s t : ReaderState) : Prop where
  last : t.following.last = s.following.last
  passed : ∃ passed : List Token, s.following.items = passed.map .ok ++ t.following.items ∧
    (t.current = passed.getLastD s.current ∨
      t.following.items = [] ∧ s.following.last = .ok t.current)

theorem Onward.refl (s : ReaderState) : Onward s s := ⟨rfl, [], rfl, .inl rfl⟩

theorem Onward.trans {s t u : ReaderState} (h : Onward s t) (h' : Onward t u) : Onward s u := by
  obtain ⟨hlast, passed, hitems, hcurrent⟩ := h
  obtain ⟨hlast', passed', hitems', hcurrent'⟩ := h'
  refine ⟨hlast'.trans hlast, passed ++ passed', by simp [hitems, hitems'], ?_⟩
  rcases hcurrent' with hcurrent' | ⟨hempty, hend⟩
  · rcases hcurrent with hcurrent | ⟨hempty, hend⟩
    · exact .inl (by rw [hcurrent', hcurrent, getLastD_append])
    · -- Nothing follows the end of input.
      rw [hempty, eq_comm, List.append_eq_nil_iff, List.map_eq_nil_iff] at hitems'
      obtain ⟨rfl, hempty'⟩ := hitems'
      exact .inr ⟨hempty', hcurrent' ▸ hend⟩
  · exact .inr ⟨hempty, hlast ▸ hend⟩

/-- The number of tokens ahead, the end of input not counted. -/
def ahead (s : ReaderState) : Nat :=
  s.following.items.length + if s.current.kind = .eof then 0 else 1

/-- The last answer of a text is the end of input or a fault. -/
def EndsText (s : ReaderState) : Prop := ∀ t, s.following.last = .ok t → t.kind = .eof

theorem Onward.ahead_le {s t : ReaderState} (h : Onward s t) (hs : EndsText s) :
    ahead t ≤ ahead s := by
  obtain ⟨-, passed, hitems, hcurrent⟩ := h
  have hlength := congrArg List.length hitems
  rw [List.length_append, List.length_map] at hlength
  unfold ahead
  rcases hcurrent with hcurrent | ⟨-, hend⟩
  · cases passed with
    | nil =>
      obtain hcurrent : t.current = s.current := hcurrent
      rw [hcurrent, hitems]
      simp
    | cons first passed =>
      rw [List.length_cons] at hlength
      split_ifs <;> omega
  · rw [if_pos (hs _ hend)]
    omega

/-- What passing a token that is not the end of input comes to. -/
private theorem run_advance_cases {s t : ReaderState} {a : Token} (heof : s.current.kind ≠ .eof)
    (h : advance.run.run s = (.ok a, t)) :
    t.following.last = s.following.last ∧
      (s.following.items = .ok t.current :: t.following.items ∨
        s.following.items = [] ∧ t.following.items = [] ∧ s.following.last = .ok t.current) := by
  cases hnext : s.following.head with
  | error e =>
    have hfault := run_advance_error heof hnext
    rw [h] at hfault
    cases hfault
  | ok next =>
    cases (run_advance_ok heof hnext).symm.trans h
    refine ⟨rfl, ?_⟩
    unfold TokenStream.head at hnext
    cases hitems : s.following.items with
    | nil => exact .inr ⟨rfl, by simp [TokenStream.tail, hitems], by simpa [hitems] using hnext⟩
    | cons item items =>
      obtain rfl : item = .ok next := by simpa [hitems] using hnext
      exact .inl (by simp [TokenStream.tail, hitems])

theorem onward_of_advance {s t : ReaderState} {a : Token} (h : advance.run.run s = (.ok a, t)) :
    Onward s t := by
  by_cases heof : s.current.kind = .eof
  · cases (run_advance_eof heof).symm.trans h
    exact ⟨rfl, [], rfl, .inl rfl⟩
  · obtain ⟨hlast, hitems | ⟨hitems, hempty, hend⟩⟩ := run_advance_cases heof h
    · exact ⟨hlast, [t.current], hitems, .inl rfl⟩
    · exact ⟨hlast, [], by rw [hitems, hempty]; rfl, .inr ⟨hempty, hend⟩⟩

/-- A token that is not the end of input is passed for good. -/
theorem ahead_lt_of_advance {s t : ReaderState} {a : Token} (hs : EndsText s)
    (heof : s.current.kind ≠ .eof) (h : advance.run.run s = (.ok a, t)) : ahead t < ahead s := by
  unfold ahead
  obtain ⟨-, hitems | ⟨hitems, hempty, hend⟩⟩ := run_advance_cases heof h
  · rw [hitems, if_neg heof, List.length_cons]
    split_ifs <;> omega
  · rw [hitems, hempty, if_pos (hs _ hend), if_neg heof]
    exact Nat.one_pos

/-- That steps go forward carries over to what is put together from such steps. -/
def forward : Congruence where
  rel step _ := ∀ s a t, step.run.run s = (.ok a, t) → Onward s t
  known _ := True
  pure _ := by
    rintro s a t h
    cases h
    exact .refl s
  bind h hf := by
    intro s b u hrun
    obtain ⟨a, t, hstep, hrun⟩ := exists_of_run_bind hrun
    exact (h s a t hstep).trans (hf a t b u hrun)
  get := by
    rintro s a t h
    cases h
    exact .refl s
  current hf := by
    intro s b u hrun
    exact hf s.current trivial s b u ((run_bind_ok (run_current s)).symm.trans hrun)
  advance hf := by
    intro s b u hrun
    obtain ⟨a, t, hstep, hrun⟩ := exists_of_run_bind hrun
    exact (onward_of_advance hstep).trans (hf a trivial t b u hrun)
  peek := by
    intro s a t h
    rw [run_peek] at h
    obtain rfl := congrArg Prod.snd h
    exact .refl s
  failAt _ _ := by
    rintro s a t h
    cases h
  tooLong := by
    rintro α s a t h
    cases h
  within h := by
    intro s a u hrun
    obtain ⟨t, hstep, rfl⟩ := exists_of_run_within hrun
    exact ⟨(h _ a t hstep).last, (h _ a t hstep).passed⟩
  tooDeep _ _ := fun _ _ _ hrun => absurd hrun run_tooDeep_ne_ok

/-! ### Statements -/

variable {limit : Nat} {s t : ReaderState}

/-- A step that passes a token first and goes forward then. -/
private theorem ahead_lt_of_run {f : Token → Reader Statement} {st : Statement} (hs : EndsText s)
    (heof : s.current.kind ≠ .eof) (hf : ∀ a, forward.rel (f a) (f a))
    (h : (advance >>= f).run.run s = (.ok st, t)) : ahead t < ahead s := by
  obtain ⟨a, u, hadvance, h⟩ := exists_of_run_bind h
  have hu : EndsText u := fun t ht => hs t ((onward_of_advance hadvance).last ▸ ht)
  exact ((hf a u st t h).ahead_le hu).trans_lt (ahead_lt_of_advance hs heof hadvance)

/-- A statement passes at least one token. -/
theorem ahead_lt_of_statement {st : Statement} (hs : EndsText s) (heof : s.current.kind ≠ .eof)
    (h : (statement limit).run.run s = (.ok st, t)) : ahead t < ahead s := by
  have hassignment (h : (assignment limit).run.run s = (.ok st, t)) : ahead t < ahead s :=
    ahead_lt_of_run hs heof (fun _ => forward.expect fun _ _ => forward.current fun _ _ =>
      forward.bind (forward.rel_expression le_rfl) fun _ =>
        forward.ite (forward.pure _) (forward.failAt trivial rfl)) h
  rw [statement, run_bind_ok (run_current s)] at h
  dsimp only at h
  split at h
  next kind _ =>
    obtain ⟨next, u, hpeek, h⟩ := exists_of_run_bind h
    rw [run_peek] at hpeek
    obtain rfl : s = u := congrArg Prod.snd hpeek
    split_ifs at h
    · exact hassignment h
    · refine ahead_lt_of_run hs heof (fun _ => forward.current fun _ _ =>
        forward.bind (forward.rel_expression le_rfl) fun _ =>
          forward.ite (forward.pure _) (forward.failAt trivial ?_)) h
      cases kind <;> rfl
  next =>
    split_ifs at h
    · exact hassignment h
    · cases h

/-- Whether a header or a declared name has been read. -/
def Seen.holds (seen : Seen) : Header ⊕ (Option DeclKind × String) → Prop
  | .inl kind => kind ∈ seen.headers
  | .inr name => name ∈ seen.names

/-- What has been read after one more statement. -/
def Seen.note (seen : Seen) : Statement → Seen
  | .assign name value _ => { seen with names := (value.declKind?, name) :: seen.names }
  | .header kind _ => { seen with headers := kind :: seen.headers }

theorem Seen.holds_note (seen : Seen) (st : Statement)
    (x : Header ⊕ (Option DeclKind × String)) :
    (seen.note st).holds x ↔ x = st.subject ∨ seen.holds x := by
  cases st <;> cases x <;> simp [Seen.note, Seen.holds, Statement.subject]

theorem noteStatement_of_not_holds {seen : Seen} {st : Statement} (h : ¬ seen.holds st.subject)
    (token : Token) : noteStatement token seen st = pure (seen.note st) := by
  cases st <;> (rw [noteStatement, if_neg (by rwa [List.contains_iff_mem])]; rfl)

/-- Nothing is noted twice. -/
theorem noteStatement_of_holds {seen : Seen} {st : Statement} (h : seen.holds st.subject)
    (token : Token) : ∃ fault, noteStatement token seen st = failAt token fault := by
  cases st <;> exact ⟨_, by rw [noteStatement, if_pos (by rwa [List.contains_iff_mem])]⟩

/-- Statements are read up to the end of input, as their number is bounded by that of the tokens. -/
theorem kind_of_statements {seen : Seen} {bound : Nat} {sts : List Statement} (hs : EndsText s)
    (hbound : ahead s < bound) (h : (statements limit seen bound).run.run s = (.ok sts, t)) :
    t.current.kind = .eof := by
  induction bound generalizing seen s sts with
  | zero => exact absurd hbound (Nat.not_lt_zero _)
  | succ bound ih =>
    rw [statements, run_bind_ok (run_current s)] at h
    by_cases heof : s.current.kind = .eof
    · rw [if_pos heof] at h
      cases h
      exact heof
    rw [if_neg heof] at h
    obtain ⟨first, u, hfirst, h⟩ := exists_of_run_bind h
    by_cases hseen : seen.holds first.subject
    · obtain ⟨fault, hfault⟩ := noteStatement_of_holds hseen s.current
      rw [hfault] at h
      cases h
    rw [noteStatement_of_not_holds hseen, pure_bind] at h
    obtain ⟨more, v, hmore, h⟩ := exists_of_run_bind h
    cases h
    have hlast := (forward.rel_statement (le_refl limit) s first u hfirst).last
    have hlt := ahead_lt_of_statement hs heof hfirst
    exact ih (fun t ht => hs t (hlast ▸ ht)) (by omega) hmore

end Reader

/-! ### Scripts -/

open Reader

variable {limit : Nat} {text : List Char} {t : Template}

/-- A script is read up to the end of input. -/
theorem exists_run_of_parseScript (h : parseScript limit text = .ok t) :
    ∃ s u, ReaderState.start text = .ok s ∧ (template limit).run.run s = (.ok t, u) ∧
      u.current.kind = .eof := by
  unfold parseScript at h
  cases hstart : ReaderState.start text with
  | error e =>
    rw [hstart] at h
    cases h
  | ok s =>
    rw [hstart] at h
    dsimp only at h
    cases hrun : (template limit).run.run s with
    | mk result u =>
      rw [hrun] at h
      obtain rfl : result = .ok t := h
      refine ⟨s, u, rfl, hrun, ?_⟩
      have hs : EndsText s := by
        obtain ⟨first, -, hfirst⟩ := bind_eq_ok_iff.1 hstart
        cases hfirst
        exact fun _ => TokenStream.kind_of_last le_rfl
      rw [template, run_bind_ok (run_get s)] at hrun
      obtain ⟨sts, u', hsts, hend⟩ := exists_of_run_bind hrun
      cases hend
      refine kind_of_statements hs ?_ hsts
      unfold ahead ReaderState.remaining
      split_ifs <;> omega

/-- The tokens of a script that is read have no faults. -/
theorem exists_ofText_of_parseScript (h : parseScript limit text = .ok t) :
    ∃ (ts : List Token) (eof : Token), TokenStream.ofText text = ⟨ts.map .ok, .ok eof⟩ := by
  obtain ⟨s, u, hstart, hrun, heof⟩ := exists_run_of_parseScript h
  obtain ⟨hlast, passed, hitems, hcurrent⟩ := forward.rel_template (le_refl limit) s t u hrun
  obtain ⟨first, hfirst, hs⟩ := bind_eq_ok_iff.1 hstart
  cases hs
  dsimp only [TokenStream.tail] at hlast hitems hcurrent
  unfold TokenStream.head at hfirst
  -- Only the last token of a text is the end of input.
  have hmem (t : Token) (ht : .ok t ∈ (TokenStream.ofText text).items) : t.kind ≠ .eof :=
    (TokenStream.isLexical_of_mem ht).1
  generalize TokenStream.ofText text = tokens at *
  obtain ⟨_ | ⟨item, items⟩, last⟩ := tokens
  · obtain rfl : last = .ok first := hfirst
    exact ⟨[], first, rfl⟩
  · obtain rfl : item = .ok first := hfirst
    rcases hcurrent with hcurrent | ⟨hempty, hend⟩
    · have hpassed : u.current ∈ first :: passed := hcurrent ▸ List.getLastD_mem_cons ..
      refine absurd heof (hmem u.current ?_)
      rw [show items = _ from hitems, ← List.cons_append, ← List.map_cons]
      exact List.mem_append_left _ (List.mem_map_of_mem hpassed)
    · refine ⟨first :: passed, u.current, ?_⟩
      rw [hempty, List.append_nil] at hitems
      rw [show items = _ from hitems, show last = _ from hend, List.map_cons]

end StackScript
