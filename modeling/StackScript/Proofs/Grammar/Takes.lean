import StackScript.Proofs.Grammar.Steps

/-!
# Rules that take given tokens

A rule takes some tokens if it passes exactly these and stops at the token that follows them,
whatever comes after that one: further tokens on any lines, a fault of the text, or nothing but the
end of input. Which tokens may follow is a condition on the rule.

## Main definitions

* `ReaderState.ahead`: the state before some tokens and a stream that starts with the next one.
* `ReaderState.facing`: the state before some tokens, the token that follows them, and a stream.
* `Reader.Takes`: a rule that takes given tokens.

## Main results

* `Reader.Takes.bind`, `Reader.Takes.cons`: rules in a row.
* `Reader.takes_advance`, `Reader.takes_expect`, `Reader.takes_accept_true`, …: the handling of
  tokens.
-/

namespace StackScript

/-- The state before some tokens and a stream after them, which starts with the next token. -/
def ReaderState.ahead (previous : Token) (ts : List Token) (next : Token) (stream : TokenStream)
    (depth : Nat) : ReaderState where
  current := ts.headD next
  previous := previous
  following := TokenStream.tail ⟨ts.map .ok ++ stream.items, stream.last⟩
  depth := depth

/-- What comes after some tokens may be tokens as well. -/
theorem ReaderState.ahead_append (previous : Token) (ts ts' : List Token) (next : Token)
    (stream : TokenStream) (depth : Nat) :
    ahead previous (ts ++ ts') next stream depth =
      ahead previous ts (ts'.headD next) ⟨ts'.map .ok ++ stream.items, stream.last⟩ depth := by
  cases ts <;> simp [ahead, TokenStream.tail]

/-- The state before some tokens, the token that follows them, and a stream after that. -/
def ReaderState.facing (previous : Token) (ts : List Token) (next : Token) (rest : TokenStream)
    (depth : Nat) : ReaderState where
  current := ts.headD next
  previous := previous
  following := ⟨(ts ++ [next]).tail.map .ok ++ rest.items, rest.last⟩
  depth := depth

theorem ReaderState.facing_eq_ahead (previous : Token) (ts : List Token) (next : Token)
    (rest : TokenStream) (depth : Nat) :
    facing previous ts next rest depth =
      ahead previous ts next ⟨.ok next :: rest.items, rest.last⟩ depth := by
  cases ts <;> simp [facing, ahead, TokenStream.tail]

namespace Reader

variable {α β : Type} {rule : Reader α} {f : α → Reader β} {stop stop' : Token → Prop}
  {t t' : Token} {ts ts' : List Token} {a : α} {b : β} {kind : TokenKind} {kinds : List TokenKind}

/-- A rule takes some tokens: from the state before them it comes to the state after them, if the
token that follows satisfies a condition. -/
structure Takes (rule : Reader α) (stop : Token → Prop) (ts : List Token) (a : α) : Prop where
  run : ∀ (previous next : Token) (stream : TokenStream) (depth : Nat), stream.head = .ok next →
    stop next → rule.run.run (.ahead previous ts next stream depth) =
      (.ok a, .ahead (ts.getLastD previous) [] next stream depth)

theorem takes_pure (a : α) : Takes (pure a) stop [] a := ⟨fun _ _ _ _ _ _ => rfl⟩

namespace Takes

/-- Tokens are taken before a token and a stream after that one. -/
theorem facing (h : Takes rule stop ts a) (previous next : Token) (rest : TokenStream)
    (depth : Nat) (hnext : stop next) :
    rule.run.run (.facing previous ts next rest depth) =
      (.ok a, .facing (ts.getLastD previous) [] next rest depth) := by
  rw [ReaderState.facing_eq_ahead, ReaderState.facing_eq_ahead]
  exact h.run previous next _ depth rfl hnext

/-- Rules in a row. The first one stops at the first token of the second one. -/
theorem bind (hr : Takes rule stop ts a) (hf : Takes (f a) stop' ts' b)
    (hstop : ∀ next, stop' next → stop (ts'.headD next)) :
    Takes (rule >>= f) stop' (ts ++ ts') b := by
  constructor
  intro previous next stream depth hstream hnext
  have hlast : (ts ++ ts').getLastD previous = ts'.getLastD (ts.getLastD previous) := by
    simp [List.getLastD_eq_getLast?, List.getLast?_append]
  have hhead : TokenStream.head ⟨ts'.map .ok ++ stream.items, stream.last⟩ =
      .ok (ts'.headD next) := by
    cases ts' with
    | nil => exact hstream
    | cons => rfl
  rw [ReaderState.ahead_append, run_bind_ok (hr.run _ _ _ _ hhead (hstop next hnext)), hlast]
  exact hf.run (ts.getLastD previous) next stream depth hstream hnext

/-- A rule after which nothing more is taken. -/
theorem bind_nil (hr : Takes rule stop ts a) (hf : Takes (f a) stop [] b) :
    Takes (rule >>= f) stop ts b := by
  have h := hr.bind hf fun _ h => h
  rwa [List.append_nil] at h

theorem bind_pure {f : α → β} (hr : Takes rule stop ts a) :
    Takes (rule >>= fun x => pure (f x)) stop ts (f a) := hr.bind_nil (takes_pure (f a))

/-- A rule that takes one token, whatever follows. -/
theorem cons (hr : Takes rule (fun _ => True) [t] a) (hf : Takes (f a) stop ts b) :
    Takes (rule >>= f) stop (t :: ts) b := hr.bind hf fun _ _ => trivial

/-- A rule that takes no token, but looks at the current one. -/
theorem look (hr : Takes rule stop' [] a) (hf : Takes (f a) stop ts b)
    (hstop : ∀ next, stop next → stop' (ts.headD next)) : Takes (rule >>= f) stop ts b :=
  hr.bind hf hstop

theorem weaken (hr : Takes rule stop ts a) (h : ∀ t, stop' t → stop t) : Takes rule stop' ts a :=
  ⟨fun previous next stream depth hstream hnext =>
    hr.run previous next stream depth hstream (h next hnext)⟩

/-- The current token is looked at. -/
theorem current {f : Token → Reader β} (hf : Takes (f t) stop (t :: ts) b) :
    Takes (current >>= f) stop (t :: ts) b :=
  ⟨fun previous next stream depth hstream hnext =>
    (run_bind_ok (run_current _)).trans (hf.run previous next stream depth hstream hnext)⟩

/-- The token after the current one is looked at, where it is taken. -/
theorem peek {f : Token → Reader β} (hf : Takes (f t') stop (t :: t' :: ts) b) :
    Takes (peek >>= f) stop (t :: t' :: ts) b :=
  ⟨fun previous next stream depth hstream hnext =>
    (run_bind_ok (run_peek _)).trans (hf.run previous next stream depth hstream hnext)⟩

/-- The token after the current one is looked at, where it follows. -/
theorem peek_next {f : Token → Reader β} (hf : ∀ next, stop next → Takes (f next) stop [t] b) :
    Takes (Reader.peek >>= f) stop [t] b := by
  constructor
  intro previous next stream depth hstream hnext
  have hpeek : Reader.peek.run.run (.ahead previous [t] next stream depth) =
      (.ok next, .ahead previous [t] next stream depth) := by
    rw [run_peek]
    exact congrArg (fun answer => (answer.mapError ScriptError.lex, _)) hstream
  exact (run_bind_ok hpeek).trans ((hf next hnext).run previous next stream depth hstream hnext)

/-- The state is looked at, for the number of tokens that are left. -/
theorem get {f : ReaderState → Reader β}
    (hf : ∀ s : ReaderState, ts.length < s.remaining → Takes (f s) stop ts b) :
    Takes (get >>= f) stop ts b := by
  constructor
  intro previous next stream depth hstream hnext
  have hlength : ts.length < (ReaderState.ahead previous ts next stream depth).remaining := by
    simp only [ReaderState.remaining, ReaderState.ahead, TokenStream.tail, List.length_drop,
      List.length_append, List.length_map]
    omega
  exact (run_bind_ok (run_get _)).trans
    ((hf _ hlength).run previous next stream depth hstream hnext)

theorem within (hr : Takes rule stop ts a) : Takes (within rule) stop ts a := by
  constructor
  intro previous next stream depth hstream hnext
  have hrun : rule.run.run { ReaderState.ahead previous ts next stream depth with
      depth := depth + 1 } = _ := hr.run previous next stream (depth + 1) hstream hnext
  exact run_within_ok hrun

end Takes

/-! ### The handling of tokens -/

theorem takes_advance (h : t.kind ≠ .eof) : Takes advance stop [t] t :=
  ⟨fun _ _ _ _ hstream _ => run_advance_ok h hstream⟩

theorem takes_expect (h : t.kind = kind) (hk : kind ≠ .eof) : Takes (expect kind) stop [t] t := by
  refine .current ?_
  rw [if_pos h]
  exact takes_advance (h ▸ hk)

theorem takes_at_true : Takes (at? kind) (fun t => t.kind = kind) [] true := by
  constructor
  intro previous next stream depth _ hnext
  change (Except.ok (decide (next.kind = kind)), _) = _
  rw [decide_eq_true hnext]
  rfl

theorem takes_at_false : Takes (at? kind) (fun t => t.kind ≠ kind) [] false := by
  constructor
  intro previous next stream depth _ hnext
  change (Except.ok (decide (next.kind = kind)), _) = _
  rw [decide_eq_false hnext]
  rfl

theorem takes_atAny_false : Takes (atAny kinds) (fun t => t.kind ∉ kinds) [] false := by
  constructor
  intro previous next stream depth _ hnext
  change (Except.ok (kinds.contains next.kind), _) = _
  rw [List.contains_eq_mem, decide_eq_false hnext]
  rfl

theorem takes_acceptAny_none : Takes (acceptAny kinds) (fun t => t.kind ∉ kinds) [] none :=
  takes_atAny_false.bind_nil (takes_pure none)

theorem takes_acceptAny_some (h : t.kind ∈ kinds) (hk : t.kind ≠ .eof) :
    Takes (acceptAny kinds) stop [t] (some t) := by
  unfold acceptAny atAny
  rw [bind_assoc]
  refine .current ?_
  rw [pure_bind, List.contains_eq_mem, decide_eq_true h]
  exact (takes_advance hk).bind_pure

theorem takes_accept_false : Takes (accept kind) (fun t => t.kind ≠ kind) [] false :=
  (takes_acceptAny_none.weaken fun t ht => by simpa using ht).bind_pure

theorem takes_accept_true (h : t.kind = kind) (hk : kind ≠ .eof) :
    Takes (accept kind) stop [t] true :=
  (takes_acceptAny_some (by simp [h]) (h ▸ hk)).bind_pure

end Reader

end StackScript
