import StackScript.Proofs.Grammar.Reads
import StackScript.Proofs.Token.Lexical

/-!
# The tokens that a rule passes

From the state before a list of tokens, a step that succeeds comes to the state before a rest of
that list. What it has passed in between is the list of tokens that its result is read from, and
the previous token of the new state is the last of them. Looking ahead passes nothing, and thus
does not matter here.

The same step is taken before every other list of tokens that say the same, as long as the ends of
lines agree where the reader looks at them: before a modifier, and hence not after an opening brace
or a comma and not before a closing brace. So two runs are followed at once.

## Main definitions

* `Aligned`: two lists of tokens that say the same.
* `Reader.Passes`, `Reader.Spans`: steps whose passed tokens and result stand in a relation.

## Main results

* `Reader.Passes.bind`: steps in a row.
* `Reader.Passes.advance`, `Reader.Passes.expect`, `Reader.Passes.accept`, …: the handling of
  tokens.
-/

namespace StackScript

/-! ### Tokens that say the same -/

/-- Two pairs of neighbours between which a line ends in both texts or in none, except after an
opening brace or a comma, before a closing brace and before the end. -/
def SameBreak (a b a' b' : Token) : Prop :=
  [.lbrace, .comma].contains a.kind = true ∨ [.rbrace, .eof].contains b.kind = true ∨
    (a.line = b.line ↔ a'.line = b'.line)

/-- Lists of tokens that say the same after two given tokens. -/
inductive Aligned : Token → Token → List Token → List Token → Prop
  | nil {a a' : Token} : Aligned a a' [] []
  | cons {a a' t t' : Token} {ts ts' : List Token} (hw : t'.word = t.word)
      (hb : SameBreak a t a' t') (h : Aligned t t' ts ts') : Aligned a a' (t :: ts) (t' :: ts')

theorem Aligned.length_eq {a a' : Token} {ts ts' : List Token} (h : Aligned a a' ts ts') :
    ts'.length = ts.length := by
  induction h with
  | nil => rfl
  | cons _ _ _ ih => simpa using ih

theorem Aligned.refl (a : Token) (ts : List Token) : Aligned a a ts ts := by
  induction ts generalizing a with
  | nil => exact .nil
  | cons t ts ih => exact .cons rfl (.inr (.inr Iff.rfl)) (ih t)

/-- The tokens that are left of two texts that say the same. -/
structure Beside (previous previous' : Token) (ts ts' : List Token) (last last' : Token) :
    Prop where
  aligned : Aligned previous previous' ts ts'
  lexical : ∀ t ∈ ts, t.kind ≠ .eof ∧ t.IsLexical
  eof : last.kind = .eof
  same_last : last'.word = last.word

/-- The next token is the last of both lists or the first of both. -/
theorem Beside.word {previous previous' last last' : Token} {ts ts' : List Token}
    (h : Beside previous previous' ts ts' last last') :
    (ts'.headD last').word = (ts.headD last).word := by
  cases h.aligned with
  | nil => exact h.same_last
  | cons hw => exact hw

/-- After a token other than an opening brace or a comma, a name is on the line of the token before
it in both lists or in none. -/
theorem Beside.line {previous previous' last last' : Token} {ts ts' : List Token}
    (h : Beside previous previous' ts ts' last last')
    (hprevious : [TokenKind.lbrace, .comma].contains previous.kind = false)
    (hname : (ts.headD last).kind = .identifier) :
    (ts'.headD last').line = previous'.line ↔ (ts.headD last).line = previous.line := by
  cases h.aligned with
  | nil => exact absurd (h.eof.symm.trans hname) (by decide)
  | cons _ hb =>
    rw [List.headD_cons] at hname
    rw [List.headD_cons, List.headD_cons]
    rcases hb with hb | hb | hb
    · exact absurd (hb.symm.trans hprevious) (by decide)
    · rw [hname] at hb
      exact absurd hb (by decide)
    · rw [eq_comm, ← hb, eq_comm]

namespace Reader

variable {α β : Type}

/-- After a token, before a current token that satisfies `P`, a step that succeeds passes a list of
tokens, and another step does so before each list of tokens that say the same. The passed tokens
stand in the relation `R` to the two results. -/
def Passes (P : Token → Prop) (previous : Token) (step step' : Reader α)
    (R : List Token → α → α → Prop) : Prop :=
  ∀ (previous' : Token) (ts ts' : List Token) (last last' : Token) (depth : Nat) (a : α)
    (s : ReaderState), Beside previous previous' ts ts' last last' → P (ts.headD last) →
      step.run.run (.before previous ts last depth) = (.ok a, s) →
        ∃ (passed rest rest' : List Token) (end' : Token) (a' : α), ts = passed ++ rest ∧
          s = .before (passed.getLastD previous) rest last depth ∧
          step'.run.run (.before previous' ts' last' depth) =
            (.ok a', .before end' rest' last' depth) ∧
          Beside (passed.getLastD previous) end' rest rest' last last' ∧ R passed a a'

theorem getLastD_append {α : Type} (xs ys : List α) (d : α) :
    (xs ++ ys).getLastD d = ys.getLastD (xs.getLastD d) := by
  simp only [List.getLastD_eq_getLast?, List.getLast?_append]
  cases ys.getLast? <;> rfl

/-- No condition on the current token. -/
def anyToken (_ : Token) : Prop := True

/-- A result that two runs share, in a relation to the passed tokens. -/
abbrev Same (R : List Token → α → Prop) (ts : List Token) (a a' : α) : Prop := a' = a ∧ R ts a

variable {P P' : Token → Prop} {previous : Token} {step step' : Reader α} {f f' : α → Reader β}
  {Q Q' : List Token → α → α → Prop} {R R' : List Token → α → Prop}
  {S : List Token → β → β → Prop}

namespace Passes

theorem weaken (h : Passes P previous step step' Q) (hP : ∀ t, P' t → P t)
    (hQ : ∀ ts a a', Q ts a a' → Q' ts a a') : Passes P' previous step step' Q' := by
  intro previous' ts ts' last last' depth a s hts hhead hrun
  obtain ⟨passed, rest, rest', end', a', hsplit, hs, hrun', hrest, hresult⟩ :=
    h previous' ts ts' last last' depth a s hts (hP _ hhead) hrun
  exact ⟨passed, rest, rest', end', a', hsplit, hs, hrun', hrest, hQ passed a a' hresult⟩

theorem imp (h : Passes P previous step step' (Same R)) (hR : ∀ ts a, R ts a → R' ts a) :
    Passes P previous step step' (Same R') :=
  h.weaken (fun _ ht => ht) fun ts a _ h => ⟨h.1, hR ts a h.2⟩

theorem of_any (h : Passes anyToken previous step step' Q) : Passes P previous step step' Q :=
  h.weaken (fun _ _ => trivial) fun _ _ _ h => h

theorem pure_of {a a' : α} (h : Q [] a a') :
    Passes P previous (Pure.pure a) (Pure.pure a') Q := by
  rintro previous' ts ts' last last' depth _ _ hts - hrun
  cases hrun
  exact ⟨[], ts, ts', previous', a', rfl, rfl, rfl, hts, h⟩

theorem pure {a : α} (h : R [] a) : Passes P previous (Pure.pure a) (Pure.pure a) (Same R) :=
  pure_of ⟨rfl, h⟩

/-- Nothing has to be shown of a step that fails. -/
theorem of_fails (h : ∀ s a t, step.run.run s ≠ (.ok a, t)) : Passes P previous step step' Q :=
  fun _ _ _ _ _ _ a t _ _ hrun => absurd hrun (h _ a t)

theorem failAt {token : Token} {fault : ParseFault} :
    Passes P previous (Reader.failAt token fault) step' Q :=
  of_fails fun _ _ _ h => by cases h

theorem failAt_bind {token : Token} {fault : ParseFault} {step' : Reader β} :
    Passes P previous (Reader.failAt token fault >>= f) step' S :=
  of_fails fun _ _ _ h => by cases h

theorem throw {e : ScriptError} : Passes P previous (throw e) step' Q :=
  of_fails fun _ _ _ h => by cases h

theorem tooDeep {limit : Nat} : Passes P previous (Reader.tooDeep limit) step' Q :=
  of_fails fun _ _ _ => run_tooDeep_ne_ok

/-- Steps in a row pass what the first one passes, and then what the second one does. -/
theorem bind_of (h : Passes P previous step step' Q)
    (hf : ∀ ts a a', Q ts a a' →
      Passes anyToken (ts.getLastD previous) (f a) (f' a') fun ts' => S (ts ++ ts')) :
    Passes P previous (step >>= f) (step' >>= f') S := by
  intro previous' ts ts' last last' depth b s hts hhead hrun
  obtain ⟨a, t, hstep, hrun⟩ := exists_of_run_bind hrun
  obtain ⟨passed, rest, rest', end', a', rfl, rfl, hstep', hrest, hQ⟩ :=
    h previous' ts ts' last last' depth a t hts hhead hstep
  obtain ⟨more, rest, rest', end', b', rfl, rfl, hrun', hrest, hS⟩ :=
    hf passed a a' hQ end' rest rest' last last' depth b s hrest trivial hrun
  rw [← getLastD_append] at hrest
  refine ⟨passed ++ more, rest, rest', end', b', (List.append_assoc ..).symm, ?_,
    (run_bind_ok hstep').trans hrun', hrest, hS⟩
  rw [getLastD_append]

theorem bind (h : Passes P previous step step' (Same R))
    (hf : ∀ ts a, R ts a →
      Passes anyToken (ts.getLastD previous) (f a) (f' a) fun ts' => S (ts ++ ts')) :
    Passes P previous (step >>= f) (step' >>= f') S := by
  refine h.bind_of fun ts a a' ha => ?_
  obtain ⟨rfl, ha⟩ := ha
  exact hf ts a' ha

theorem within (h : Passes P previous step step' Q) :
    Passes P previous (Reader.within step) (Reader.within step') Q := by
  intro previous' ts ts' last last' depth a s hts hhead hrun
  obtain ⟨t, hstep, rfl⟩ := exists_of_run_within hrun
  obtain ⟨passed, rest, rest', end', a', rfl, rfl, hstep', hrest, hQ⟩ :=
    h previous' ts ts' last last' (depth + 1) a t hts hhead hstep
  refine ⟨passed, rest, rest', end', a', rfl, rfl, ?_, hrest, hQ⟩
  rw [run_within_ok hstep']
  rfl

/-! ### Looking at tokens -/

/-- What is passed after the state is asked for is bounded by what remains in it. Two states agree
in the number of tokens that remain and in the nesting level. -/
theorem get {f f' : ReaderState → Reader α}
    (hf : ∀ s s', s'.remaining = s.remaining → s'.depth = s.depth →
      Passes P previous (f s) (f' s') (Same fun ts a => ts.length < s.remaining → R ts a)) :
    Passes P previous (get >>= f) (get >>= f') (Same R) := by
  intro previous' ts ts' last last' depth b s hts hhead hrun
  rw [run_bind_ok (run_get _)] at hrun
  rw [run_bind_ok (run_get _)]
  have hremaining (previous : Token) (ts : List Token) (last : Token) :
      (ReaderState.before previous ts last depth).remaining = ts.length - 1 + 2 := by
    simp [ReaderState.remaining, ReaderState.before]
  have hsame : (ReaderState.before previous' ts' last' depth).remaining =
      (ReaderState.before previous ts last depth).remaining := by
    rw [hremaining, hremaining, hts.aligned.length_eq]
  obtain ⟨passed, rest, rest', end', b', rfl, hs, hrun', hrest, hb, hR⟩ :=
    hf _ _ hsame rfl previous' ts ts' last last' depth b s hts hhead hrun
  refine ⟨passed, rest, rest', end', b', rfl, hs, hrun', hrest, hb, hR ?_⟩
  rw [hremaining, List.length_append]
  omega

theorem current {f f' : Token → Reader β}
    (hf : ∀ t t', P t → (t.kind ≠ .eof → t.IsLexical) → t'.word = t.word →
      Passes (· = t) previous (f t) (f' t') S) :
    Passes P previous (current >>= f) (Reader.current >>= f') S := by
  intro previous' ts ts' last last' depth b s hts hhead hrun
  rw [run_bind_ok (run_current _)] at hrun ⊢
  refine hf _ _ hhead (fun heof => ?_) hts.word previous' ts ts' last last' depth b s hts rfl hrun
  cases ts with
  | nil => exact absurd hts.eof heof
  | cons t ts => exact (hts.lexical t (List.mem_cons_self ..)).2

theorem peek {f f' : Token → Reader β}
    (hf : ∀ t t', t'.word = t.word → Passes P previous (f t) (f' t') S) :
    Passes P previous (peek >>= f) (Reader.peek >>= f') S := by
  intro previous' ts ts' last last' depth b s hts hhead hrun
  obtain ⟨t, t', hw, hpeek, hpeek'⟩ : ∃ t t' : Token, t'.word = t.word ∧
      Reader.peek.run.run (.before previous ts last depth) =
        (.ok t, .before previous ts last depth) ∧
      Reader.peek.run.run (.before previous' ts' last' depth) =
        (.ok t', .before previous' ts' last' depth) := by
    cases hts.aligned with
    | nil => exact ⟨last, last', hts.same_last, rfl, rfl⟩
    | cons _ _ h =>
      cases h with
      | nil => exact ⟨last, last', hts.same_last, rfl, rfl⟩
      | cons hw => exact ⟨_, _, hw, rfl, rfl⟩
  rw [run_bind_ok hpeek] at hrun
  rw [run_bind_ok hpeek']
  exact hf t t' hw previous' ts ts' last last' depth b s hts hhead hrun

/-- Whether the current token is of one of some kinds. -/
theorem atAny {kinds : List TokenKind} {f f' : Bool → Reader β}
    (hyes : Passes (fun t => P t ∧ t.kind ∈ kinds) previous (f true) (f' true) S)
    (hno : Passes P previous (f false) (f' false) S) :
    Passes P previous (atAny kinds >>= f) (Reader.atAny kinds >>= f') S := by
  unfold Reader.atAny
  rw [bind_assoc, bind_assoc]
  refine current fun t t' ht _ hw => ?_
  have hkind' : t'.kind = t.kind := congrArg Word.kind hw
  rw [pure_bind, pure_bind, hkind']
  by_cases hkind : t.kind ∈ kinds
  · rw [List.contains_iff_mem.2 hkind]
    refine hyes.weaken ?_ fun _ _ _ h => h
    rintro _ rfl
    exact ⟨ht, hkind⟩
  · rw [Bool.eq_false_iff.2 (mt List.contains_iff_mem.1 hkind)]
    exact hno.weaken (fun _ h => h ▸ ht) fun _ _ _ h => h

/-- Whether the current token is of a kind. -/
theorem at? {kind : TokenKind} {f f' : Bool → Reader β}
    (hyes : Passes (fun t => P t ∧ t.kind = kind) previous (f true) (f' true) S)
    (hno : Passes P previous (f false) (f' false) S) :
    Passes P previous (at? kind >>= f) (Reader.at? kind >>= f') S := by
  unfold Reader.at?
  rw [bind_assoc, bind_assoc]
  refine current fun t t' ht _ hw => ?_
  have hkind' : t'.kind = t.kind := congrArg Word.kind hw
  rw [pure_bind, pure_bind, hkind']
  by_cases hkind : t.kind = kind
  · rw [decide_eq_true hkind]
    refine hyes.weaken ?_ fun _ _ _ h => h
    rintro _ rfl
    exact ⟨ht, hkind⟩
  · rw [decide_eq_false hkind]
    exact hno.weaken (fun _ h => h ▸ ht) fun _ _ _ h => h

/-! ### Passing tokens -/

/-- Before a token that is not the end of input, that token is passed. -/
theorem advance {f f' : Token → Reader β} (heof : ∀ t, P t → t.kind ≠ .eof)
    (hf : ∀ t t', P t → t.IsLexical → t'.word = t.word →
      Passes anyToken t (f t) (f' t') fun ts => S (t :: ts)) :
    Passes P previous (advance >>= f) (Reader.advance >>= f') S := by
  intro previous' ts ts' last last' depth b s hts hhead hrun
  cases hts.aligned with
  | nil => exact absurd hts.eof (heof last hhead)
  | @cons _ _ t t' ts ts' hw _ h =>
    have hkind' : t'.kind = t.kind := congrArg Word.kind hw
    obtain ⟨hlexical, hmore⟩ := List.forall_mem_cons.1 hts.lexical
    rw [run_bind_ok (run_advance_before (heof t hhead) previous ts last depth)] at hrun
    rw [run_bind_ok (run_advance_before (hkind' ▸ heof t hhead) previous' ts' last' depth)]
    obtain ⟨passed, rest, rest', end', b', rfl, rfl, hrun', hrest, hS⟩ :=
      hf t t' hhead hlexical.2 hw t' ts ts' last last' depth b s ⟨h, hmore, hts.eof, hts.same_last⟩
        trivial hrun
    have hlast : (t :: passed).getLastD previous = passed.getLastD t := by cases passed <;> rfl
    exact ⟨t :: passed, rest, rest', end', b', rfl, by rw [hlast], hrun', by rwa [hlast], hS⟩

/-- A token that has to be of a kind is passed. -/
theorem expect {kind : TokenKind} {f f' : Token → Reader β} (heof : kind ≠ .eof)
    (hf : ∀ t t', P t → t.kind = kind → t.IsLexical → t'.word = t.word →
      Passes anyToken t (f t) (f' t') fun ts => S (t :: ts)) :
    Passes P previous (expect kind >>= f) (Reader.expect kind >>= f') S := by
  unfold Reader.expect
  rw [bind_assoc, bind_assoc]
  refine current fun t t' ht _ hw => ?_
  have hkind' : t'.kind = t.kind := congrArg Word.kind hw
  rw [hkind']
  by_cases hkind : t.kind = kind
  · rw [if_pos hkind, if_pos hkind]
    refine advance ?_ ?_
    · rintro _ rfl
      rwa [hkind]
    · rintro _ t' rfl hlexical hw
      exact hf _ t' ht hkind hlexical hw
  · rw [if_neg hkind]
    exact failAt_bind

/-- A token is passed if it is of one of some kinds. -/
theorem acceptAny {kinds : List TokenKind} {f f' : Option Token → Reader β} (heof : .eof ∉ kinds)
    (hyes : ∀ t t', t.kind ∈ kinds → t'.word = t.word →
      Passes anyToken t (f (some t)) (f' (some t')) fun ts => S (t :: ts))
    (hno : Passes P previous (f none) (f' none) S) :
    Passes P previous (acceptAny kinds >>= f) (Reader.acceptAny kinds >>= f') S := by
  unfold Reader.acceptAny
  rw [bind_assoc, bind_assoc]
  refine atAny ?_ hno
  simp only [if_true, bind_assoc, pure_bind]
  refine advance ?_ fun t t' ht _ hw => hyes t t' ht.2 hw
  rintro t ⟨-, hkind⟩ hend
  exact heof (hend ▸ hkind)

/-- A token is passed if it is of a kind. -/
theorem accept {kind : TokenKind} {f f' : Bool → Reader β} (heof : kind ≠ .eof)
    (hyes : ∀ t, t.kind = kind → Passes anyToken t (f true) (f' true) fun ts => S (t :: ts))
    (hno : Passes P previous (f false) (f' false) S) :
    Passes P previous (accept kind >>= f) (Reader.accept kind >>= f') S := by
  unfold Reader.accept
  rw [bind_assoc, bind_assoc]
  refine acceptAny (by simpa using heof.symm) (fun t t' ht _ => ?_) ?_
  · rw [pure_bind, pure_bind]
    exact hyes t (List.mem_singleton.1 ht)
  · rw [pure_bind, pure_bind]
    exact hno

/-- A modifier starts on the line of the previous token. The ends of lines agree after it, unless it
is an opening brace or a comma. -/
theorem atModifier {f f' : Bool → Reader β}
    (hprevious : [TokenKind.lbrace, .comma].contains previous.kind = false)
    (hyes : Passes (fun t => t.kind = .identifier ∧ modifierNames.contains t.value = true ∧
      t.line = previous.line) previous (f true) (f' true) S)
    (hno : Passes anyToken previous (f false) (f' false) S) :
    Passes P previous (atModifier >>= f) (Reader.atModifier >>= f') S := by
  unfold Reader.atModifier
  rw [bind_assoc, bind_assoc]
  intro previous' ts ts' last last' depth b s hts hhead hrun
  rw [run_bind_ok (run_get _)] at hrun
  rw [run_bind_ok (run_get _)]
  have hkind : (ts'.headD last').kind = (ts.headD last).kind := congrArg Word.kind hts.word
  have hvalue : (ts'.headD last').value = (ts.headD last).value := congrArg Word.value hts.word
  have hsame : ((ts'.headD last').kind = .identifier ∧
      modifierNames.contains (ts'.headD last').value ∧
      (ts'.headD last').line = previous'.line) ↔ ((ts.headD last).kind = .identifier ∧
      modifierNames.contains (ts.headD last).value ∧ (ts.headD last).line = previous.line) := by
    rw [hkind, hvalue]
    exact and_congr_right fun hidentifier => and_congr_right fun _ => hts.line hprevious hidentifier
  by_cases hmodifier : (ts.headD last).kind = .identifier ∧
      modifierNames.contains (ts.headD last).value ∧ (ts.headD last).line = previous.line
  · rw [if_pos (by exact hmodifier)] at hrun
    rw [if_pos (by exact hsame.2 hmodifier)]
    have hlook : Passes (· = ts.headD last) previous
        ((do return decide ((← Reader.peek).kind = .lparen)) >>= f)
        ((do return decide ((← Reader.peek).kind = .lparen)) >>= f') S := by
      rw [bind_assoc, bind_assoc]
      refine peek fun t t' hw => ?_
      have hkind : t'.kind = t.kind := congrArg Word.kind hw
      rw [pure_bind, pure_bind, hkind]
      by_cases hparen : t.kind = .lparen
      · rw [decide_eq_true hparen]
        refine hyes.weaken ?_ fun _ _ _ h => h
        rintro _ rfl
        exact hmodifier
      · rw [decide_eq_false hparen]
        exact hno.of_any
    exact hlook previous' ts ts' last last' depth b s hts rfl hrun
  · rw [if_neg (by exact hmodifier), pure_bind] at hrun
    rw [if_neg (by exact mt hsame.1 hmodifier), pure_bind]
    exact hno previous' ts ts' last last' depth b s hts trivial hrun

end Passes

/-- A step that passes tokens in a relation to its result, after whatever token, and that gives the
same result before tokens that say the same. -/
def Spans (step : Reader α) (R : List Token → α → Prop) : Prop :=
  ∀ previous, Passes anyToken previous step step (Same R)

end Reader

end StackScript
