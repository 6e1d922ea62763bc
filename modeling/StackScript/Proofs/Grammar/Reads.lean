import StackScript.Proofs.Grammar.Steps
import StackScript.Proofs.Token.Scan

/-!
# Rules that read given words

A rule reads some words if it passes exactly the tokens that say these words, whatever follows them
up to a condition on the first token that does. Tokens stand on one line here, because the rule for
modifiers looks at lines.

## Main definitions

* `Word.sign`, `Word.joined`, `Word.enclosed`: signs, words with a sign between them, and words in
  brackets.
* `Word.property`, `Word.modifier`: the words of a property and of a modifier.
* `ReaderState.before`: the state before a list of tokens.
* `Reader.Reads`: a rule that reads given words.

## Main results

* `Reader.Reads.bind`: rules in a row.
* `Reader.Reads.advance`, `Reader.Reads.expect`, `Reader.Reads.accept_true`, …: the handling of
  tokens.
-/

namespace StackScript

/-! ### Words -/

namespace Word

/-- The word of a sign. -/
def sign (kind : TokenKind) : Word := ⟨kind, kind.text⟩

/-- The word of an identifier. -/
def ident (x : String) : Word := ⟨.identifier, x⟩

/-- The word of a string. -/
def str (s : String) : Word := ⟨.string, s⟩

@[simp] theorem kind_sign (kind : TokenKind) : (sign kind).kind = kind := rfl

@[simp] theorem kind_ident (x : String) : (ident x).kind = .identifier := rfl

@[simp] theorem kind_str (s : String) : (str s).kind = .string := rfl

/-- Lists of words with a word between them. -/
def joined (separator : Word) : List (List Word) → List Word
  | [] => []
  | first :: others => first ++ others.flatMap (separator :: ·)

/-- Lists of words with commas between them, in brackets of a kind. -/
def enclosed (opening closing : TokenKind) (wss : List (List Word)) : List Word :=
  sign opening :: (joined (sign .comma) wss ++ [sign closing])

/-- The words of a property: its key, a colon, and those of its value. -/
def property (p : Word × List Word) : List Word := p.1 :: sign .colon :: p.2

/-- The words of a modifier: its name, and those of its value in parentheses. -/
def modifier (m : String × List Word) : List Word :=
  ident m.1 :: sign .lparen :: (m.2 ++ [sign .rparen])

end Word

/-- The state before a list of tokens that the last token follows. -/
def ReaderState.before (previous : Token) (ts : List Token) (last : Token) (depth : Nat) :
    ReaderState :=
  ⟨ts.headD last, previous, ⟨ts.tail.map .ok, .ok last⟩, depth⟩

/-- The state before a text is that before its tokens. -/
theorem ReaderState.start_of_ofText {text : List Char} {ts : List Token} {last : Token}
    (h : TokenStream.ofText text = ⟨ts.map .ok, .ok last⟩) :
    ReaderState.start text = .ok (.before (ts.headD last) ts last 0) := by
  unfold ReaderState.start
  rw [h]
  cases ts <;> rfl

namespace Reader

variable {α β : Type}

/-- Moving on before a list of tokens. -/
theorem run_advance_before {t : Token} (h : t.kind ≠ .eof) (previous : Token) (ts : List Token)
    (last : Token) (depth : Nat) :
    advance.run.run (.before previous (t :: ts) last depth) =
      (.ok t, .before t ts last depth) := by
  cases ts with
  | nil =>
    rw [run_advance_ok (t := last) h rfl]
    rfl
  | cons next ts =>
    rw [run_advance_ok (t := next) h rfl]
    rfl

theorem run_expect_before {t : Token} {kind : TokenKind} (h : t.kind = kind) (hk : kind ≠ .eof)
    (previous : Token) (ts : List Token) (last : Token) (depth : Nat) :
    (expect kind).run.run (.before previous (t :: ts) last depth) =
      (.ok t, .before t ts last depth) := by
  unfold expect
  rw [run_bind_ok (run_current _), if_pos]
  · exact run_advance_before (h ▸ hk) previous ts last depth
  · exact h

/-! ### Reading words -/

/-- The token that comes first: the first of some words or, if there are none, one that satisfies a
condition. -/
def StartsWith (next : Token → Prop) : List Word → Token → Prop
  | [] => next
  | w :: _ => fun t => t.word = w

theorem StartsWith.kind {next : Token → Prop} {w : Word} {ws : List Word} {t : Token}
    (h : StartsWith next (w :: ws) t) : t.kind = w.kind := congrArg Word.kind h

/-- Of tokens that say some words, and tokens after them, the first is as it should be. -/
private theorem startsWith_headD {next : Token → Prop} {ts rest : List Token} {last : Token}
    (h : next (rest.headD last)) :
    StartsWith next (ts.map Token.word) ((ts ++ rest).headD last) := by
  cases ts with
  | nil => exact h
  | cons t ts => rfl

/-- A rule reads some words on a line: from the state before tokens that say them it comes to the
state after them, if the first token that follows satisfies a condition. -/
def Reads (line : Nat) (rule : Reader α) (next : Token → Prop) (ws : List Word) (a : α) : Prop :=
  ∀ (previous : Token) (ts rest : List Token) (last : Token) (depth : Nat),
    previous.line = line → (∀ t ∈ ts, t.line = line) → ts.map Token.word = ws →
      next (rest.headD last) → ∃ previous' : Token, previous'.line = line ∧
        rule.run.run (.before previous (ts ++ rest) last depth) =
          (.ok a, .before previous' rest last depth)

variable {line : Nat} {rule : Reader α} {next next' : Token → Prop} {w : Word}
  {ws ws' : List Word} {a : α} {b : β}

namespace Reads

theorem pure (a : α) : Reads line (pure a) next [] a := by
  intro previous ts rest last depth hprevious _ hwords _
  obtain rfl := List.map_eq_nil_iff.1 hwords
  exact ⟨previous, hprevious, rfl⟩

/-- Rules in a row. -/
theorem bind {f : α → Reader β} (hr : Reads line rule next ws a)
    (hf : Reads line (f a) next' ws' b) (hnext : ∀ t, StartsWith next' ws' t → next t) :
    Reads line (rule >>= f) next' (ws ++ ws') b := by
  intro previous ts rest last depth hprevious hline hwords hrest
  obtain ⟨ts, ts', rfl, rfl, rfl⟩ := List.map_eq_append_iff.1 hwords
  rw [List.forall_mem_append] at hline
  obtain ⟨middle, hmiddle, hrun⟩ := hr previous ts (ts' ++ rest) last depth hprevious hline.1 rfl
    (hnext _ (startsWith_headD hrest))
  obtain ⟨previous', hprevious', hrun'⟩ := hf middle ts' rest last depth hmiddle hline.2 rfl hrest
  refine ⟨previous', hprevious', ?_⟩
  rw [List.append_assoc, run_bind_ok hrun, hrun']

/-- A rule after which nothing more is read. -/
theorem bind_nil {f : α → Reader β} (hr : Reads line rule next ws a)
    (hf : Reads line (f a) next [] b) : Reads line (rule >>= f) next ws b := by
  have h := hr.bind hf fun _ h => h
  rwa [List.append_nil] at h

theorem bind_pure {f : α → β} (hr : Reads line rule next ws a) :
    Reads line (rule >>= fun x => Pure.pure (f x)) next ws (f a) := hr.bind_nil (pure (f a))

theorem weaken (hr : Reads line rule next ws a) (h : ∀ t, next' t → next t) :
    Reads line rule next' ws a :=
  fun previous ts rest last depth hprevious hline hwords hrest =>
    hr previous ts rest last depth hprevious hline hwords (h _ hrest)

/-- The current token is passed. -/
theorem advance {f : Token → Reader β} (hw : w.kind ≠ .eof)
    (hf : ∀ t : Token, t.word = w → t.line = line → Reads line (f t) next ws b) :
    Reads line (advance >>= f) next (w :: ws) b := by
  intro previous ts rest last depth hprevious hline hwords hrest
  obtain ⟨t, ts, rfl, rfl, rfl⟩ := List.map_eq_cons_iff.1 hwords
  rw [List.forall_mem_cons] at hline
  obtain ⟨previous', hprevious', hrun⟩ := hf t rfl hline.1 t ts rest last depth hline.1 hline.2 rfl
    hrest
  exact ⟨previous', hprevious', (run_bind_ok (run_advance_before hw _ _ _ _)).trans hrun⟩

/-- The current token is looked at. -/
theorem current {f : Token → Reader β}
    (hf : ∀ t : Token, StartsWith next ws t → Reads line (f t) next ws b) :
    Reads line (current >>= f) next ws b := by
  intro previous ts rest last depth hprevious hline hwords hrest
  subst hwords
  obtain ⟨previous', hprevious', hrun⟩ :=
    hf ((ts ++ rest).headD last) (startsWith_headD hrest) previous ts rest last depth hprevious
      hline rfl hrest
  exact ⟨previous', hprevious', (run_bind_ok (run_current _)).trans hrun⟩

/-- A token of the kind that has to come is passed. -/
theorem expect {f : Token → Reader β} {kind : TokenKind} (hw : w.kind = kind) (hk : kind ≠ .eof)
    (hf : ∀ t : Token, t.word = w → t.line = line → Reads line (f t) next ws b) :
    Reads line (expect kind >>= f) next (w :: ws) b := by
  unfold Reader.expect
  rw [bind_assoc]
  refine current fun t ht => ?_
  rw [if_pos (ht.kind.trans hw)]
  exact advance (hw ▸ hk) hf

theorem at_true {f : Bool → Reader β} {kind : TokenKind}
    (h : ∀ t, StartsWith next ws t → t.kind = kind) (hf : Reads line (f true) next ws b) :
    Reads line (at? kind >>= f) next ws b := by
  unfold Reader.at?
  rw [bind_assoc]
  refine current fun t ht => ?_
  rw [pure_bind, decide_eq_true (h t ht)]
  exact hf

theorem at_false {f : Bool → Reader β} {kind : TokenKind}
    (h : ∀ t, StartsWith next ws t → t.kind ≠ kind) (hf : Reads line (f false) next ws b) :
    Reads line (at? kind >>= f) next ws b := by
  unfold Reader.at?
  rw [bind_assoc]
  refine current fun t ht => ?_
  rw [pure_bind, decide_eq_false (h t ht)]
  exact hf

theorem atAny_false {f : Bool → Reader β} {kinds : List TokenKind}
    (h : ∀ t, StartsWith next ws t → t.kind ∉ kinds) (hf : Reads line (f false) next ws b) :
    Reads line (atAny kinds >>= f) next ws b := by
  unfold Reader.atAny
  rw [bind_assoc]
  refine current fun t ht => ?_
  rw [pure_bind, List.contains_eq_mem, decide_eq_false (h t ht)]
  exact hf

theorem acceptAny_none {f : Option Token → Reader β} {kinds : List TokenKind}
    (h : ∀ t, StartsWith next ws t → t.kind ∉ kinds) (hf : Reads line (f none) next ws b) :
    Reads line (acceptAny kinds >>= f) next ws b := by
  unfold Reader.acceptAny
  rw [bind_assoc]
  refine atAny_false h ?_
  rwa [if_neg Bool.false_ne_true, pure_bind]

theorem acceptAny_some {f : Option Token → Reader β} {kinds : List TokenKind}
    (hw : w.kind ∈ kinds) (hk : w.kind ≠ .eof)
    (hf : ∀ t : Token, t.word = w → Reads line (f (some t)) next ws b) :
    Reads line (acceptAny kinds >>= f) next (w :: ws) b := by
  unfold Reader.acceptAny Reader.atAny
  simp only [bind_assoc, pure_bind]
  refine current fun t ht => ?_
  rw [ht.kind, List.contains_eq_mem, decide_eq_true hw, if_pos rfl, bind_assoc]
  refine advance hk fun t ht _ => ?_
  rw [pure_bind]
  exact hf t ht

theorem accept_true {f : Bool → Reader β} {kind : TokenKind} (hw : w.kind = kind)
    (hk : kind ≠ .eof) (hf : Reads line (f true) next ws b) :
    Reads line (accept kind >>= f) next (w :: ws) b := by
  unfold Reader.accept
  rw [bind_assoc]
  refine acceptAny_some (by simp [hw]) (hw ▸ hk) fun t _ => ?_
  rw [pure_bind]
  exact hf

theorem accept_false {f : Bool → Reader β} {kind : TokenKind}
    (h : ∀ t, StartsWith next ws t → t.kind ≠ kind) (hf : Reads line (f false) next ws b) :
    Reads line (accept kind >>= f) next ws b := by
  unfold Reader.accept
  rw [bind_assoc]
  refine acceptAny_none (fun t ht => by simpa using h t ht) ?_
  rw [pure_bind]
  exact hf

/-- The state is looked at, for the number of tokens that are left. -/
theorem get {f : ReaderState → Reader β}
    (hf : ∀ s : ReaderState, ws.length < s.remaining → Reads line (f s) next ws b) :
    Reads line (get >>= f) next ws b := by
  intro previous ts rest last depth hprevious hline hwords hrest
  have hlength : ws.length < (ReaderState.before previous (ts ++ rest) last depth).remaining := by
    rw [← hwords]
    simp only [ReaderState.remaining, ReaderState.before, List.length_map, List.length_tail,
      List.length_append]
    omega
  obtain ⟨previous', hprevious', hrun⟩ :=
    hf _ hlength previous ts rest last depth hprevious hline hwords hrest
  exact ⟨previous', hprevious', (run_bind_ok (run_get _)).trans hrun⟩

theorem within (hr : Reads line rule next ws a) : Reads line (within rule) next ws a := by
  intro previous ts rest last depth hprevious hline hwords hrest
  obtain ⟨previous', hprevious', hrun⟩ :=
    hr previous ts rest last (depth + 1) hprevious hline hwords hrest
  refine ⟨previous', hprevious', ?_⟩
  rw [run_within_ok (t := .before previous' rest last (depth + 1)) hrun]
  rfl

end Reads

end Reader

end StackScript
