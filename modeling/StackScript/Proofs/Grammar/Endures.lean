import StackScript.Proofs.Grammar.Reads

/-!
# Steps that do not nest too deep

A reader may fail for many reasons. What is said here of a step is only that nesting is not one of
them: from a state before tokens that satisfy a condition, the step fails for another reason, or it
comes to a state before tokens that satisfy a second condition, on the level it started on. What a
step returns does not matter, nor do the lines that tokens stand on. So the rules below are much
weaker than those of `Reader.Reads`, and hold of scripts that are refused as well.

## Main definitions

* `ScriptError.isTooDeep`: the errors that come from nesting.
* `Reader.Ahead`, `Reader.Leads`: tokens that start with given words, and the first of them.
* `Reader.Endures`: steps that do not nest too deep.
* `Reader.Through`: rules that get through given words.

## Main results

* `Reader.Endures.bind`: steps in a row.
* `Reader.Endures.advance`, `Reader.Endures.expect`, `Reader.Endures.accept_true`, …: the handling
  of tokens.
-/

namespace StackScript

/-- Whether a fault is that of nesting too deep. -/
def ParseFault.isTooDeep : ParseFault → Bool
  | .nestingTooDeep _ => true
  | _ => false

/-- Whether an error comes from nesting too deep. -/
def ScriptError.isTooDeep : ScriptError → Bool
  | .parse error => error.fault.isTooDeep
  | _ => false

namespace Reader

variable {α β : Type}

theorem run_bind_error {m : Reader α} {f : α → Reader β} {s t : ReaderState} {e : ScriptError}
    (h : m.run.run s = (.error e, t)) : (m >>= f).run.run s = (.error e, t) := by
  simp only [ExceptT.run_bind, StateT.run_bind, h]
  rfl

/-! ### Tokens ahead -/

/-- Tokens that start with given words, followed by tokens that satisfy a condition. -/
def Ahead : List Word → (List Token → Prop) → List Token → Prop
  | [], K => K
  | w :: ws, K => fun ts => ∃ t rest, ts = t :: rest ∧ t.word = w ∧ Ahead ws K rest

/-- A token that may be the current one before tokens that satisfy a condition. -/
def Leads (P : List Token → Prop) (t : Token) : Prop :=
  ∃ ts last, last.kind = .eof ∧ P ts ∧ ts.headD last = t

variable {P P' Q Q' R K : List Token → Prop} {w : Word} {ws ws' : List Word} {t : Token}

theorem ahead_append (ws ws' : List Word) (K : List Token → Prop) :
    Ahead (ws ++ ws') K = Ahead ws (Ahead ws' K) := by
  induction ws with
  | nil => rfl
  | cons w ws ih => simp only [List.cons_append, Ahead, ih]

theorem Ahead.imp {K' : List Token → Prop} {ts : List Token} (h : Ahead ws K ts)
    (hK : ∀ ts, K ts → K' ts) : Ahead ws K' ts := by
  induction ws generalizing ts with
  | nil => exact hK ts h
  | cons w ws ih =>
    obtain ⟨t, rest, rfl, ht, h⟩ := h
    exact ⟨t, rest, rfl, ht, ih h⟩

/-- Tokens with nothing after given words say just these words. -/
theorem ahead_eq_nil_iff {ts : List Token} :
    Ahead ws (· = []) ts ↔ ts.map Token.word = ws := by
  induction ws generalizing ts with
  | nil => simp [Ahead]
  | cons w ws ih => simp only [Ahead, ih, List.map_eq_cons_iff]

theorem Ahead.length_le {ts : List Token} (h : Ahead ws K ts) : ws.length ≤ ts.length := by
  induction ws generalizing ts with
  | nil => exact Nat.zero_le _
  | cons w ws ih =>
    obtain ⟨t, rest, rfl, -, h⟩ := h
    exact Nat.succ_le_succ (ih h)

theorem Leads.word (h : Leads (Ahead (w :: ws) K) t) : t.word = w := by
  obtain ⟨_, last, -, ⟨t, rest, rfl, ht, -⟩, rfl⟩ := h
  exact ht

theorem Leads.kind (h : Leads (Ahead (w :: ws) K) t) : t.kind = w.kind := congrArg Word.kind h.word

/-! ### Steps -/

/-- What a step that does not nest too deep may come to. -/
def Settles (Q : List Token → Prop) (last : Token) (depth : Nat) :
    Except ScriptError α × ReaderState → Prop
  | (.ok _, s) => ∃ previous ts, s = .before previous ts last depth ∧ Q ts
  | (.error e, _) => e.isTooDeep = false

/-- A step on a level that does not nest too deep: before tokens that satisfy `P` it fails for
another reason, or comes to tokens that satisfy `Q`. -/
def Endures (depth : Nat) (P : List Token → Prop) (step : Reader α) (Q : List Token → Prop) :
    Prop :=
  ∀ (previous : Token) (ts : List Token) (last : Token), last.kind = .eof → P ts →
    Settles Q last depth (step.run.run (.before previous ts last depth))

/-- A rule that gets through some words on every level, if the first token that follows satisfies a
condition. -/
def Through (rule : Reader α) (stop : Token → Prop) (ws : List Word) : Prop :=
  ∀ (depth : Nat) (K : List Token → Prop), (∀ t, Leads K t → stop t) →
    Endures depth (Ahead ws K) rule K

variable {depth : Nat} {step : Reader α} {f : α → Reader β}

namespace Endures

theorem pure (a : α) : Endures depth P (pure a) P :=
  fun previous ts _ _ hts => ⟨previous, ts, rfl, hts⟩

theorem weaken (h : Endures depth P step Q) (hP : ∀ ts, P' ts → P ts) (hQ : ∀ ts, Q ts → Q' ts) :
    Endures depth P' step Q' := by
  intro previous ts last hlast hts
  have hstep := h previous ts last hlast (hP ts hts)
  cases hrun : step.run.run (.before previous ts last depth) with
  | mk result s =>
    rw [hrun] at hstep
    cases result with
    | error e => exact hstep
    | ok a =>
      obtain ⟨previous', ts', rfl, hts'⟩ := hstep
      exact ⟨previous', ts', rfl, hQ ts' hts'⟩

/-- Steps in a row. -/
theorem bind (h : Endures depth P step R) (hf : ∀ a, Endures depth R (f a) Q) :
    Endures depth P (step >>= f) Q := by
  intro previous ts last hlast hts
  have hstep := h previous ts last hlast hts
  cases hrun : step.run.run (.before previous ts last depth) with
  | mk result s =>
    rw [hrun] at hstep
    cases result with
    | error e =>
      rw [run_bind_error hrun]
      exact hstep
    | ok a =>
      obtain ⟨previous', ts', rfl, hts'⟩ := hstep
      rw [run_bind_ok hrun]
      exact hf a previous' ts' last hlast hts'

theorem bind_pure {g : α → β} (h : Endures depth P step Q) :
    Endures depth P (step >>= fun a => Pure.pure (g a)) Q := h.bind fun a => pure (g a)

/-- A step that looks at the state and leaves it as it is. -/
theorem look {A : α → Prop}
    (h : ∀ previous ts last, last.kind = .eof → P ts →
      ∃ a, A a ∧ step.run.run (.before previous ts last depth) =
        (.ok a, .before previous ts last depth))
    (hf : ∀ a, A a → Endures depth P (f a) Q) : Endures depth P (step >>= f) Q := by
  intro previous ts last hlast hts
  obtain ⟨a, ha, hrun⟩ := h previous ts last hlast hts
  rw [run_bind_ok hrun]
  exact hf a ha previous ts last hlast hts

theorem throw {e : ScriptError} (h : e.isTooDeep = false) :
    Endures depth P (throw e : Reader α) Q :=
  fun _ _ _ _ _ => h

theorem failAt {token : Token} {fault : ParseFault} (h : fault.isTooDeep = false) :
    Endures depth P (failAt token fault : Reader α) Q := throw h

theorem failAt_bind {token : Token} {fault : ParseFault} (h : fault.isTooDeep = false) :
    Endures depth P (Reader.failAt token fault >>= f) Q :=
  fun _ _ _ _ _ => h

theorem within (h : Endures (depth + 1) P step Q) : Endures depth P (within step) Q := by
  intro previous ts last hlast hts
  have hstep := h previous ts last hlast hts
  have hrun : (Reader.within step).run.run (.before previous ts last depth) =
      ((step.run.run (.before previous ts last (depth + 1))).1,
        { (step.run.run (.before previous ts last (depth + 1))).2 with
          depth := (step.run.run (.before previous ts last (depth + 1))).2.depth - 1 }) := rfl
  rw [hrun]
  cases hinner : step.run.run (.before previous ts last (depth + 1)) with
  | mk result s =>
    rw [hinner] at hstep
    cases result with
    | error e => exact hstep
    | ok a =>
      obtain ⟨previous', ts', rfl, hts'⟩ := hstep
      exact ⟨previous', ts', rfl, hts'⟩

/-! ### Tokens -/

/-- The current token is looked at. -/
theorem current {f : Token → Reader β} (hf : ∀ t, Leads P t → Endures depth P (f t) Q) :
    Endures depth P (current >>= f) Q :=
  look (fun _ ts last hlast hts => ⟨_, ⟨ts, last, hlast, hts, rfl⟩, run_current _⟩) hf

theorem fail {fault : ParseFault} (h : fault.isTooDeep = false) :
    Endures depth P (fail fault : Reader α) Q := current fun _ _ => failAt h

/-- The current token is passed. -/
theorem advance {f : Token → Reader β} (hw : w.kind ≠ .eof)
    (hf : ∀ t : Token, t.word = w → Endures depth (Ahead ws K) (f t) Q) :
    Endures depth (Ahead (w :: ws) K) (advance >>= f) Q := by
  rintro previous _ last hlast ⟨t, rest, rfl, rfl, hrest⟩
  rw [run_bind_ok (run_advance_before hw previous rest last depth)]
  exact hf t rfl t rest last hlast hrest

/-- A token is passed if it is of the kind that has to come. -/
theorem expect {f : Token → Reader β} {kind : TokenKind} (hk : kind ≠ .eof)
    (hf : ∀ t : Token, t.word = w → w.kind = kind → Endures depth (Ahead ws K) (f t) Q) :
    Endures depth (Ahead (w :: ws) K) (expect kind >>= f) Q := by
  unfold Reader.expect
  rw [bind_assoc]
  refine current fun t ht => ?_
  by_cases hkind : t.kind = kind
  · rw [if_pos hkind]
    have hw : w.kind = kind := ht.kind.symm.trans hkind
    exact advance (hw ▸ hk) fun t ht => hf t ht hw
  · rw [if_neg hkind]
    exact failAt_bind rfl

theorem at_true {f : Bool → Reader β} {kind : TokenKind} (h : ∀ t, Leads P t → t.kind = kind)
    (hf : Endures depth P (f true) Q) : Endures depth P (at? kind >>= f) Q := by
  unfold Reader.at?
  rw [bind_assoc]
  refine current fun t ht => ?_
  rwa [pure_bind, decide_eq_true (h t ht)]

theorem at_false {f : Bool → Reader β} {kind : TokenKind} (h : ∀ t, Leads P t → t.kind ≠ kind)
    (hf : Endures depth P (f false) Q) : Endures depth P (at? kind >>= f) Q := by
  unfold Reader.at?
  rw [bind_assoc]
  refine current fun t ht => ?_
  rwa [pure_bind, decide_eq_false (h t ht)]

theorem atAny {f : Bool → Reader β} {kinds : List TokenKind}
    (hf : ∀ b, Endures depth P (f b) Q) : Endures depth P (atAny kinds >>= f) Q := by
  unfold Reader.atAny
  rw [bind_assoc]
  refine current fun t ht => ?_
  rw [pure_bind]
  exact hf _

theorem acceptAny_none {f : Option Token → Reader β} {kinds : List TokenKind}
    (h : ∀ t, Leads P t → t.kind ∉ kinds) (hf : Endures depth P (f none) Q) :
    Endures depth P (acceptAny kinds >>= f) Q := by
  unfold Reader.acceptAny Reader.atAny
  simp only [bind_assoc, pure_bind]
  refine current fun t ht => ?_
  rwa [List.contains_eq_mem, decide_eq_false (h t ht), if_neg Bool.false_ne_true, pure_bind]

theorem acceptAny_some {f : Option Token → Reader β} {kinds : List TokenKind}
    (hw : w.kind ∈ kinds) (hk : w.kind ≠ .eof)
    (hf : ∀ t : Token, Endures depth (Ahead ws K) (f (some t)) Q) :
    Endures depth (Ahead (w :: ws) K) (acceptAny kinds >>= f) Q := by
  unfold Reader.acceptAny Reader.atAny
  simp only [bind_assoc, pure_bind]
  refine current fun t ht => ?_
  rw [ht.kind, List.contains_eq_mem, decide_eq_true hw, if_pos rfl, bind_assoc]
  refine advance hk fun t _ => ?_
  rw [pure_bind]
  exact hf t

theorem accept_false {f : Bool → Reader β} {kind : TokenKind} (h : ∀ t, Leads P t → t.kind ≠ kind)
    (hf : Endures depth P (f false) Q) : Endures depth P (accept kind >>= f) Q := by
  unfold Reader.accept
  rw [bind_assoc]
  refine acceptAny_none (fun t ht => by simpa using h t ht) ?_
  rwa [pure_bind]

theorem accept_true {f : Bool → Reader β} {kind : TokenKind} (hw : w.kind = kind)
    (hk : kind ≠ .eof) (hf : Endures depth (Ahead ws K) (f true) Q) :
    Endures depth (Ahead (w :: ws) K) (accept kind >>= f) Q := by
  unfold Reader.accept
  rw [bind_assoc]
  refine acceptAny_some (by simp [hw]) (hw ▸ hk) fun t => ?_
  rwa [pure_bind]

/-- The token after the current one is looked at. -/
theorem peek {f : Token → Reader β}
    (hf : ∀ t, Leads (Ahead ws K) t → Endures depth (Ahead (w :: ws) K) (f t) Q) :
    Endures depth (Ahead (w :: ws) K) (peek >>= f) Q := by
  refine look (fun previous ts last hlast hts => ?_) hf
  obtain ⟨t, rest, rfl, -, hrest⟩ := hts
  refine ⟨rest.headD last, ⟨rest, last, hlast, hrest, rfl⟩, ?_⟩
  rw [run_peek]
  cases rest <;> rfl

/-- The state is looked at. -/
theorem get_any {f : ReaderState → Reader β} (hf : ∀ s, Endures depth P (f s) Q) :
    Endures depth P (get >>= f) Q :=
  look (A := fun _ => True) (fun _ _ _ _ _ => ⟨_, trivial, run_get _⟩) fun s _ => hf s

/-- The state is looked at, for the number of tokens that are left. -/
theorem get {f : ReaderState → Reader β}
    (hf : ∀ s : ReaderState, ws.length < s.remaining → Endures depth (Ahead ws K) (f s) Q) :
    Endures depth (Ahead ws K) (get >>= f) Q := by
  refine look (fun previous ts last _ hts => ⟨_, ?_, run_get _⟩) hf
  have := hts.length_le
  simp only [ReaderState.remaining, ReaderState.before, List.length_map, List.length_tail]
  omega

end Endures

end Reader

end StackScript
