import Mathlib.Logic.Relation
import StackScript.Proofs.Yaml.Quoted
import StackScript.Yaml.Tokens

/-!
# Tokens between brackets

Between brackets the columns of lines do not matter, and a token never has to be a key. So every
bracket, comma, colon and scalar adds its tokens to those before, and the blanks and line feeds in
front of it are skipped.

## Main definitions

* `Yaml.TokenState.InFlow`: a state between brackets.
* `Yaml.TokenState.Leads`: steps that find more tokens.
* `Yaml.TokenState.Faults`: states from which the end of the text is not reached.

## Main results

* `Yaml.TokenState.InFlow.exists_open`, `Yaml.TokenState.InFlow.exists_close`,
  `Yaml.TokenState.InFlow.exists_comma`: brackets and commas.
* `Yaml.TokenState.InFlow.exists_string`: strings that can be read.
* `Yaml.TokenState.InFlow.exists_key`: keys, which are marked as such only if they fit.
-/

namespace StackScript.Yaml

namespace TokenState

/-! ### Layout -/

/-- The characters of the layout between tokens. -/
def isLayout (c : Char) : Bool := c == ' ' || c == '\n'

/-- The characters before which layout ends. -/
def isSolid (c : Char) : Bool :=
  !(c == ' ' || c == '#' || c == byteOrderMark || isBreak c)

/-- Layout before the next token or the end of the text is skipped; a key may start after it, unless
there are brackets and no key might start before. -/
theorem skipLayout_eq {s : TokenState} {gap next : List Char} {fuel : Nat}
    (hgap : ∀ ch ∈ gap, isLayout ch = true) (hnext : ∀ ch ∈ next.head?, isSolid ch = true)
    (h : s.cursor.rest = gap ++ next) (hfuel : gap.length < fuel) :
    ∃ cursor keyAllowed, s.skipLayout fuel = { s with cursor, keyAllowed } ∧
      cursor.rest = next ∧ (s.flowLevel ≠ 0 → keyAllowed = s.keyAllowed) ∧
      (gap = [] → cursor = s.cursor) := by
  induction fuel generalizing s gap with
  | zero => exact absurd hfuel (Nat.not_lt_zero _)
  | succ fuel ih =>
    obtain ⟨n, tail, rfl, htail, -⟩ := exists_spaces gap
    rw [List.append_assoc] at h
    have hhead : ∀ ch ∈ (tail ++ next).head?, (ch == ' ') = false ∧ ch ≠ '#' := by
      intro ch hch
      cases tail with
      | nil =>
        have hsolid := hnext ch hch
        simp only [isSolid, Bool.not_eq_true', Bool.or_eq_false_iff, beq_eq_false_iff_ne] at hsolid
        exact ⟨by simpa using hsolid.1.1.1, hsolid.1.1.2⟩
      | cons first more =>
        obtain rfl : first = ch := by simpa using hch
        have hlayout := hgap first (by simp)
        simp only [isLayout, Bool.or_eq_true, beq_iff_eq] at hlayout
        obtain rfl | rfl := hlayout
        · exact absurd rfl htail
        · decide
    have hskip : s.cursor.skipSpaces = s.cursor.move n := by
      rw [Cursor.skipSpaces, Cursor.takeWhile_eq h (by simp) fun ch hch => (hhead ch hch).1,
        List.length_replicate]
    have hrest := Cursor.rest_move_of_append h
    rw [List.length_replicate] at hrest
    have hcomment : (s.cursor.move n).skipComment = s.cursor.move n := by
      rw [Cursor.skipComment, if_neg]
      rw [beq_iff_eq, Cursor.head?, hrest]
      exact fun hch => (hhead '#' hch).2 rfl
    rw [skipLayout, hskip, hcomment]
    cases tail with
    | nil =>
      have hbreak : (s.cursor.move n).head?.any isBreak = false := by
        rw [Cursor.head?, hrest, Option.any_eq_false]
        intro ch hch
        have hsolid := hnext ch hch
        simp only [isSolid, Bool.not_eq_true', Bool.or_eq_false_iff] at hsolid
        exact hsolid.2
      refine ⟨s.cursor.move n, s.keyAllowed, ?_, hrest, fun _ => rfl, fun hnil => ?_⟩
      · simp [hbreak]
      · obtain rfl : n = 0 := by simpa using hnil
        rfl
    | cons first more =>
      have hlayout := hgap first (by simp)
      simp only [isLayout, Bool.or_eq_true, beq_iff_eq] at hlayout
      obtain rfl | rfl := hlayout
      · exact absurd rfl htail
      have hline : (s.cursor.move n).lineBreak.2 = (s.cursor.move n).advance := by
        unfold Cursor.lineBreak
        rw [hrest]
        rfl
      let after : TokenState :=
        { s with
          cursor := (s.cursor.move n).advance
          keyAllowed := s.keyAllowed || s.flowLevel == 0 }
      have hafter : after.cursor.rest = more ++ next := by
        rw [Cursor.rest_advance, hrest, List.cons_append, List.tail_cons]
      have hshort : more.length < fuel := by
        simp only [List.length_append, List.length_cons] at hfuel
        omega
      obtain ⟨cursor, keyAllowed, heq, hcursor, hkey, -⟩ :=
        ih (fun ch hch => hgap ch (by simp [hch])) hafter hshort
      refine ⟨cursor, keyAllowed, ?_, hcursor, fun hflow => ?_, fun hnil => ?_⟩
      · rw [Cursor.head?_of_rest hrest, hline]
        exact heq
      · rw [hkey hflow]
        simp [after, hflow]
      · simp at hnil

/-! ### States between brackets -/

/-- A state inside a number of brackets with the tokens so far: no block is open, no token has to be
a key, and the end of the text is not reached. -/
structure InFlow (s : TokenState) (flow : Nat) (tokens : List Token) : Prop where
  flowLevel_eq : s.flowLevel = flow
  blocks_eq : s.blocks = []
  tokens_eq : s.tokens = tokens.reverse
  count_eq : s.count = tokens.length
  optional : ∀ p ∈ s.pending, p.2.required = false
  unended : Token.streamEnd ∉ tokens

/-- One more token after the layout before it. -/
def next (s : TokenState) : Except Fault (TokenState × Bool) :=
  match s.cursor.rest with
  | [] => do return ((← s.outermost).emit .streamEnd, false)
  | c :: rest => do return (← s.token c rest.head?, true)

variable {s : TokenState} {flow : Nat} {tokens : List Token} {gap next rest : List Char}

theorem next_cons {c : Char} (h : s.cursor.rest = c :: rest) :
    s.next = do return (← s.token c rest.head?, true) := by
  unfold TokenState.next
  rw [h]

namespace InFlow

theorem streamEnd_notMem (h : InFlow s flow tokens) : Token.streamEnd ∉ s.tokens := by
  rw [h.tokens_eq, List.mem_reverse]
  exact h.unended

/-- Only the cursor, and which keys are allowed or pending, has changed. -/
theorem of_pending (h : InFlow s flow tokens) (cursor : Cursor) (keyAllowed : Bool)
    {pending : List (Nat × PendingKey)} (hpending : ∀ p ∈ pending, p.2.required = false) :
    InFlow { s with cursor, keyAllowed, pending } flow tokens :=
  ⟨h.flowLevel_eq, h.blocks_eq, h.tokens_eq, h.count_eq, hpending, h.unended⟩

theorem emit (h : InFlow s flow tokens) {token : Token} (hend : token ≠ .streamEnd) :
    InFlow (s.emit token) flow (tokens ++ [token]) where
  flowLevel_eq := h.flowLevel_eq
  blocks_eq := h.blocks_eq
  tokens_eq := by simp [TokenState.emit, h.tokens_eq]
  count_eq := by simp [TokenState.emit, h.count_eq]
  optional := h.optional
  unended := by simpa using ⟨h.unended, hend.symm⟩

theorem closeBlocks_eq (h : InFlow s flow tokens) (p : Nat → Bool) : s.closeBlocks p = s := by
  unfold closeBlocks
  split_ifs
  · have hblocks := h.blocks_eq
    cases s
    simp_all
  · rfl

theorem dropKey_eq (h : InFlow s flow tokens) :
    ∃ pending, s.dropKey = .ok { s with pending } ∧ InFlow { s with pending } flow tokens ∧
      ∀ p ∈ pending, p.1 ≠ flow := by
  unfold dropKey
  cases hkey : s.pendingKey? with
  | none =>
    refine ⟨s.pending, rfl, h, fun p hp => ?_⟩
    have hne := List.lookup_eq_none_iff.1 hkey p hp
    rw [h.flowLevel_eq] at hne
    exact (by simpa using hne : flow ≠ p.1).symm
  | some key =>
    have hmem : (s.flowLevel, key) ∈ s.pending := by
      obtain ⟨before, after, hpending, -⟩ := List.lookup_eq_some_iff.1 hkey
      simp [hpending]
    have hoptional : key.required = false := h.optional _ hmem
    refine ⟨s.forgetKey.pending, ?_, h.of_pending s.cursor s.keyAllowed fun p hp => ?_,
      fun p hp => ?_⟩
    · simp [hoptional, forgetKey]
    · exact h.optional p (List.mem_filter.1 hp).1
    · simpa [h.flowLevel_eq] using (List.mem_filter.1 hp).2

theorem saveKey_eq (h : InFlow s flow tokens) :
    ∃ pending, s.saveKey = .ok { s with pending } ∧ InFlow { s with pending } flow tokens ∧
      (s.keyAllowed = true → ∃ older, (∀ p ∈ older, p.1 ≠ flow) ∧
        pending = (flow, ⟨tokens.length, false, s.cursor.index, s.cursor.line,
          s.cursor.column⟩) :: older) := by
  unfold saveKey
  split_ifs with hallowed
  · obtain ⟨pending, hdrop, hflow, hother⟩ := h.dropKey_eq
    refine ⟨(flow, ⟨tokens.length, false, s.cursor.index, s.cursor.line, s.cursor.column⟩) ::
      pending, ?_, ?_, fun _ => ⟨pending, hother, rfl⟩⟩
    · rw [hdrop]
      show Except.ok _ = Except.ok _
      simp [h.flowLevel_eq, h.count_eq, h.blocks_eq]
    · exact hflow.of_pending s.cursor s.keyAllowed (by simpa using hflow.optional)
  · exact ⟨s.pending, rfl, h, fun hallow => absurd hallow hallowed⟩

theorem dropStaleKeys_eq (h : InFlow s flow tokens) :
    s.dropStaleKeys = .ok { s with pending := s.pending.filter fun p => !s.isStale p.2 } := by
  have hnone : (s.pending.any fun p => s.isStale p.2 && p.2.required) = false := by
    rw [List.any_eq_false]
    intro p hp
    simp [h.optional p hp]
  unfold dropStaleKeys
  rw [if_neg]
  rwa [Bool.not_eq_true]

/-- The layout before a token or the end of the text is skipped, and pending keys that are too far
away are given up. -/
theorem step_eq (h : InFlow s flow tokens) (hgap : ∀ ch ∈ gap, isLayout ch = true)
    (hnext : ∀ ch ∈ next.head?, isSolid ch = true) (hrest : s.cursor.rest = gap ++ next) :
    ∃ s' : TokenState, InFlow s' flow tokens ∧ s'.cursor.rest = next ∧
      (flow ≠ 0 → s'.keyAllowed = s.keyAllowed) ∧
      (gap = [] → s'.cursor = s.cursor ∧
        s'.pending = s.pending.filter fun p => !s.isStale p.2) ∧
      s.step = s'.next := by
  have hmark : s.skipMark = s := by
    unfold skipMark
    rw [if_neg]
    have hhead : s.cursor.head? ≠ some byteOrderMark := by
      rw [Cursor.head?, hrest]
      cases gap with
      | nil => exact fun hmark => absurd (hnext _ hmark) (by decide)
      | cons ch gap =>
        intro hmark
        obtain rfl : ch = byteOrderMark := by simpa using hmark
        exact absurd (hgap byteOrderMark (by simp)) (by decide)
    simp [hhead]
  have hfuel : gap.length < s.cursor.rest.length + 1 := by
    rw [hrest, List.length_append]
    omega
  obtain ⟨cursor, keyAllowed, hskip, hcursor, hkey, hsame⟩ := skipLayout_eq hgap hnext hrest hfuel
  have hskipped : InFlow { s with cursor, keyAllowed } flow tokens :=
    h.of_pending cursor keyAllowed h.optional
  let s' : TokenState := { s with
    cursor, keyAllowed
    pending := s.pending.filter fun p =>
      !({ s with cursor, keyAllowed } : TokenState).isStale p.2 }
  have hs' : InFlow s' flow tokens :=
    hskipped.of_pending cursor keyAllowed fun p hp => h.optional p (List.mem_filter.1 hp).1
  refine ⟨s', hs', hcursor, fun hflow => hkey (h.flowLevel_eq ▸ hflow),
    fun hnil => ⟨hsame hnil, ?_⟩, ?_⟩
  · obtain rfl := hsame hnil
    rfl
  · unfold step
    rw [hmark, hskip, hskipped.dropStaleKeys_eq]
    show (s'.closeBlocks _).next = s'.next
    rw [hs'.closeBlocks_eq]

end InFlow

/-! ### Steps -/

/-- One more token, which is not the last one. -/
structure Advances (s s' : TokenState) : Prop where
  step_eq : s.step = .ok (s', true)
  shorter : s'.cursor.rest.length < s.cursor.rest.length
  unended : Token.streamEnd ∉ s.tokens

/-- Steps that find more tokens before the end of the text. -/
abbrev Leads : TokenState → TokenState → Prop := Relation.ReflTransGen Advances

/-- The end of the text is not reached from a state. -/
def Faults (s : TokenState) : Prop :=
  ∀ fuel, Token.streamEnd ∉ (run fuel s).1 ∧ (run fuel s).2.isSome = true

theorem streamEnd_notMem_settled (h : Token.streamEnd ∉ s.tokens) :
    Token.streamEnd ∉ s.settled :=
  fun hmem => h (List.mem_reverse.1 (List.mem_of_mem_take hmem))

theorem Faults.of_step {fault : Fault} (h : s.step = .error fault)
    (hend : Token.streamEnd ∉ s.tokens) : s.Faults := by
  rintro (_ | fuel)
  · exact ⟨streamEnd_notMem_settled hend, rfl⟩
  · rw [run, h]
    exact ⟨streamEnd_notMem_settled hend, rfl⟩

theorem Faults.of_leads {s' : TokenState} (hlead : Leads s s') (h : s'.Faults) : s.Faults := by
  induction hlead using Relation.ReflTransGen.head_induction_on with
  | refl => exact h
  | head hstep _ ih =>
    rintro (_ | fuel)
    · exact ⟨streamEnd_notMem_settled hstep.unended, rfl⟩
    · rw [run, hstep.step_eq]
      exact ih fuel

/-- Steps take no more fuel than the text that they pass. -/
theorem Leads.exists_run {s' : TokenState} (h : Leads s s') :
    ∃ n, n + s'.cursor.rest.length ≤ s.cursor.rest.length ∧
      ∀ fuel, run (n + fuel) s = run fuel s' := by
  induction h using Relation.ReflTransGen.head_induction_on with
  | refl => exact ⟨0, by simp, fun fuel => by rw [Nat.zero_add]⟩
  | head hstep _ ih =>
    obtain ⟨n, hn, hrun⟩ := ih
    refine ⟨n + 1, by have := hstep.shorter; omega, fun fuel => ?_⟩
    rw [Nat.add_right_comm, run, hstep.step_eq]
    exact hrun fuel

/-! ### Brackets and commas -/

/-- The two kinds of brackets. -/
inductive Brackets where
  | sequence
  | mapping

namespace Brackets

def opening : Brackets → Char
  | sequence => '['
  | mapping => '{'

def closing : Brackets → Char
  | sequence => ']'
  | mapping => '}'

def start : Brackets → Token
  | sequence => .flowSequenceStart
  | mapping => .flowMappingStart

def finish : Brackets → Token
  | sequence => .flowSequenceEnd
  | mapping => .flowMappingEnd

end Brackets

/-- The tests for the start of a line do not apply to most characters. -/
theorem token_eq {c : Char} (h : s.cursor.rest = c :: rest)
    (hc : c ≠ '%' ∧ c ≠ '-' ∧ c ≠ '.') (after : Option Char) :
    s.token c after =
      if c == '[' then s.openFlow .flowSequenceStart
      else if c == '{' then s.openFlow .flowMappingStart
      else if c == ']' then s.closeFlow .flowSequenceEnd
      else if c == '}' then s.closeFlow .flowMappingEnd
      else if c == ',' then s.flowEntry
      else if c == '?' && (s.flowLevel != 0 || endsWord after) then s.markedKey
      else if c == ':' && (s.flowLevel != 0 || endsWord after) then s.mappingValue
      else if c == '*' then s.named .alias
      else if c == '&' then s.named .anchor
      else if c == '!' then s.tag
      else if c == '|' && !(s.flowLevel != 0) then s.block false
      else if c == '>' && !(s.flowLevel != 0) then s.block true
      else if c == '\'' then s.quoted false
      else if c == '"' then s.quoted true
      else if s.startsPlain c after then s.plain
      else .error .malformed := by
  unfold token
  simp [hc, Cursor.atTriple_eq_false h hc.2.1, Cursor.atTriple_eq_false h hc.2.2]

private theorem token_quote (h : s.cursor.rest = '"' :: rest) (after : Option Char) :
    s.token '"' after = s.quoted true := by
  rw [token_eq h (by decide)]
  rfl

namespace InFlow

/-- A step that finds a token which starts with a given character. -/
theorem exists_advances {c : Char} {P : TokenState → Prop} (h : InFlow s flow tokens)
    (hgap : ∀ ch ∈ gap, isLayout ch = true) (hc : isSolid c = true)
    (hrest : s.cursor.rest = gap ++ c :: rest)
    (htoken : ∀ s' : TokenState, InFlow s' flow tokens → s'.cursor.rest = c :: rest →
      (flow ≠ 0 → s'.keyAllowed = s.keyAllowed) →
      ∃ t, s'.token c rest.head? = .ok t ∧ t.cursor.rest.length ≤ rest.length ∧ P t) :
    ∃ t, Advances s t ∧ P t := by
  obtain ⟨s', hs', hrest', hkey, -, hstep⟩ := h.step_eq hgap (by simpa using hc) hrest
  obtain ⟨t, ht, hlength, hP⟩ := htoken s' hs' hrest' hkey
  refine ⟨t, ⟨?_, ?_, ?_⟩, hP⟩
  · rw [hstep, next_cons hrest', ht]
    rfl
  · rw [hrest, List.length_append, List.length_cons]
    omega
  · exact h.streamEnd_notMem

/-- An opening bracket. -/
theorem exists_open (b : Brackets) (h : InFlow s flow tokens)
    (hgap : ∀ ch ∈ gap, isLayout ch = true) (hrest : s.cursor.rest = gap ++ b.opening :: rest) :
    ∃ t, Advances s t ∧ InFlow t (flow + 1) (tokens ++ [b.start]) ∧ t.cursor.rest = rest ∧
      t.keyAllowed = true := by
  have hsolid : isSolid b.opening = true := by cases b <;> rfl
  refine h.exists_advances hgap hsolid hrest fun s' hs' hrest' _ => ?_
  have htoken : s'.token b.opening rest.head? = s'.openFlow b.start := by
    cases b <;>
    · rw [token_eq hrest' (by decide)]
      rfl
  obtain ⟨pending, hsave, hpending, -⟩ := hs'.saveKey_eq
  have hstart : b.start ≠ .streamEnd := by cases b <;> decide
  have hemit := hpending.emit hstart
  have hafter : s'.cursor.advance.rest = rest := by
    rw [Cursor.rest_advance, hrest', List.tail_cons]
  refine ⟨_, by rw [htoken, openFlow, hsave]; rfl, Nat.le_of_eq (congrArg _ hafter), ?_, hafter,
    rfl⟩
  exact ⟨congrArg (· + 1) hs'.flowLevel_eq, hemit.blocks_eq, hemit.tokens_eq, hemit.count_eq,
    hemit.optional, hemit.unended⟩

/-- A closing bracket. -/
theorem exists_close (b : Brackets) (h : InFlow s (flow + 1) tokens)
    (hgap : ∀ ch ∈ gap, isLayout ch = true) (hrest : s.cursor.rest = gap ++ b.closing :: rest) :
    ∃ t, Advances s t ∧ InFlow t flow (tokens ++ [b.finish]) ∧ t.cursor.rest = rest := by
  have hsolid : isSolid b.closing = true := by cases b <;> rfl
  refine h.exists_advances hgap hsolid hrest fun s' hs' hrest' _ => ?_
  have htoken : s'.token b.closing rest.head? = s'.closeFlow b.finish := by
    cases b <;>
    · rw [token_eq hrest' (by decide)]
      rfl
  obtain ⟨pending, hdrop, hpending, -⟩ := hs'.dropKey_eq
  have hfinish : b.finish ≠ .streamEnd := by cases b <;> decide
  have hemit := hpending.emit hfinish
  have hafter : s'.cursor.advance.rest = rest := by
    rw [Cursor.rest_advance, hrest', List.tail_cons]
  have hclose : s'.closeFlow b.finish = .ok { ({ s' with pending } : TokenState).emitMark b.finish
      with flowLevel := flow, keyAllowed := false } := by
    unfold closeFlow
    rw [hdrop]
    simp only [bind, Except.bind, hs'.flowLevel_eq]
    rfl
  refine ⟨_, htoken.trans hclose, Nat.le_of_eq (congrArg _ hafter), ?_, hafter⟩
  exact ⟨rfl, hemit.blocks_eq, hemit.tokens_eq, hemit.count_eq, hemit.optional, hemit.unended⟩

/-- A comma. -/
theorem exists_comma (h : InFlow s flow tokens) (hgap : ∀ ch ∈ gap, isLayout ch = true)
    (hrest : s.cursor.rest = gap ++ ',' :: rest) :
    ∃ t, Advances s t ∧ InFlow t flow (tokens ++ [.flowEntry]) ∧ t.cursor.rest = rest ∧
      t.keyAllowed = true := by
  refine h.exists_advances hgap (by decide) hrest fun s' hs' hrest' _ => ?_
  have htoken : s'.token ',' rest.head? = s'.flowEntry := by
    rw [token_eq hrest' (by decide)]
    rfl
  obtain ⟨pending, hdrop, hpending, -⟩ := hs'.dropKey_eq
  have hemit := hpending.emit (show Token.flowEntry ≠ .streamEnd by decide)
  have hafter : s'.cursor.advance.rest = rest := by
    rw [Cursor.rest_advance, hrest', List.tail_cons]
  refine ⟨_, by rw [htoken, flowEntry, hdrop]; rfl, Nat.le_of_eq (congrArg _ hafter), ?_, hafter,
    rfl⟩
  exact ⟨hemit.flowLevel_eq, hemit.blocks_eq, hemit.tokens_eq, hemit.count_eq, hemit.optional,
    hemit.unended⟩

/-- A string between quotes. If a key may start here, the string is remembered as one. -/
theorem exists_string {str text : List Char} (h : InFlow s flow tokens)
    (hgap : ∀ ch ∈ gap, isLayout ch = true) (hread : ReadsAs str (.ok text))
    (hrest : s.cursor.rest = gap ++ (Json.string str ++ rest)) :
    ∃ t, Advances s t ∧ InFlow t flow (tokens ++ [.scalar text false]) ∧ t.cursor.rest = rest ∧
      (flow ≠ 0 → s.keyAllowed = true → ∃ (c : Cursor) (older : List (Nat × PendingKey)),
        c.rest = Json.string str ++ rest ∧ t.cursor = c.move (Json.string str).length ∧
        (∀ p ∈ older, p.1 ≠ flow) ∧
        t.pending = (flow, ⟨tokens.length, false, c.index, c.line, c.column⟩) :: older) := by
  have hquote : s.cursor.rest = gap ++ '"' :: (escaped str ++ ['"'] ++ rest) := hrest
  refine h.exists_advances hgap (by decide) hquote fun s' hs' hrest' hkey => ?_
  obtain ⟨pending, hsave, hpending, hnew⟩ := hs'.saveKey_eq
  have hafter : (s'.cursor.move (Json.string str).length).rest = rest :=
    Cursor.rest_move_of_append hrest'
  have hemit := hpending.emit (show Token.scalar text false ≠ .streamEnd by simp)
  refine ⟨_, ?_, ?_,
    hemit.of_pending (s'.cursor.move (Json.string str).length) false hemit.optional, hafter,
    fun hflow hallowed => ?_⟩
  · rw [token_quote hrest', quoted, hsave]
    change (quotedText true s'.cursor.advance >>= _) = _
    rw [hread.quotedText_eq hrest']
    rfl
  · show (s'.cursor.move (Json.string str).length).rest.length ≤ _
    rw [hafter, List.length_append]
    exact Nat.le_add_left _ _
  · obtain ⟨older, hother, hpending⟩ := hnew ((hkey hflow).trans hallowed)
    exact ⟨s'.cursor, older, hrest', rfl, hother, hpending⟩

/-- A string between quotes that cannot be read. -/
theorem faults_string {str : List Char} {fault : Fault} (h : InFlow s flow tokens)
    (hgap : ∀ ch ∈ gap, isLayout ch = true) (hread : ReadsAs str (.error fault))
    (hrest : s.cursor.rest = gap ++ (Json.string str ++ rest)) : s.Faults := by
  have hquote : s.cursor.rest = gap ++ '"' :: (escaped str ++ ['"'] ++ rest) := hrest
  have hsolid : isSolid '"' = true := by decide
  obtain ⟨s', hs', hrest', -, -, hstep⟩ := h.step_eq hgap (by simpa using hsolid) hquote
  obtain ⟨pending, hsave, -, -⟩ := hs'.saveKey_eq
  refine Faults.of_step (show s.step = .error fault from ?_) ?_
  · rw [hstep, next_cons hrest', token_quote hrest', quoted, hsave]
    change (quotedText true s'.cursor.advance >>= _) >>= _ = _
    rw [hread.quotedText_eq hrest']
    rfl
  · exact h.streamEnd_notMem

end InFlow

/-! ### Keys -/

/-- Whether a string can be a key without a mark: it stands on one line and is not too long. -/
def fitsKey (k : List Char) : Bool :=
  k.all (fun c => !isFolded c || c == ' ') && decide ((Json.string k).length ≤ maxKeyLength)

/-- The tokens of a key that is read as `text`, and its colon. -/
def keyTokens (k text : List Char) : List Token :=
  (if fitsKey k then [.key] else []) ++ [.scalar text false, .value]

/-- A key is too far away from its colon if and only if it does not fit. -/
private theorem isStale_eq {k : List Char} {c : Cursor} (hc : c.rest = Json.string k ++ rest)
    (hcursor : s.cursor = c.move (Json.string k).length) (position : Nat) (required : Bool) :
    s.isStale ⟨position, required, c.index, c.line, c.column⟩ = !fitsKey k := by
  have hindex : s.cursor.index = c.index + (Json.string k).length := by
    rw [hcursor, Cursor.index_move]
    rw [hc, List.length_append]
    exact Nat.le_add_right _ _
  have hcr : '\r' ∉ Json.string k := fun h => absurd (mem_string h).1 (by decide)
  have hline : c.line = s.cursor.line ↔ ∀ c ∈ k, isFolded c = true → c = ' ' := by
    rw [eq_comm, hcursor, Cursor.line_move_eq_iff hc hcr, forall_mem_string_iff]
  rw [Bool.eq_iff_iff, isStale, fitsKey]
  simp only [hindex, Bool.or_eq_true, bne_iff_ne, ne_eq, hline, decide_eq_true_eq,
    Nat.add_sub_cancel_left, Bool.not_eq_true', Bool.and_eq_false_iff, List.all_eq_false,
    decide_eq_false_iff_not, Nat.not_le]
  simp

namespace InFlow

private theorem insertKey {token : Token} (h : InFlow s flow (tokens ++ [token])) :
    InFlow (s.insert tokens.length [.key]) flow (tokens ++ [.key, token]) where
  flowLevel_eq := h.flowLevel_eq
  blocks_eq := h.blocks_eq
  tokens_eq := by simp [TokenState.insert, h.tokens_eq, h.count_eq]
  count_eq := by simp [TokenState.insert, h.count_eq]
  optional := h.optional
  unended := by simpa using h.unended

/-- The colon after a string that was remembered as a key. -/
private theorem exists_colon {k : List Char} {token : Token} {c : Cursor}
    {older : List (Nat × PendingKey)} (h : InFlow s flow (tokens ++ [token])) (hflow : flow ≠ 0)
    (hc : c.rest = Json.string k ++ ':' :: rest) (hrest : s.cursor.rest = ':' :: rest)
    (hcursor : s.cursor = c.move (Json.string k).length) (holder : ∀ p ∈ older, p.1 ≠ flow)
    (hpending : s.pending = (flow, ⟨tokens.length, false, c.index, c.line, c.column⟩) :: older) :
    ∃ t, Advances s t ∧ t.cursor.rest = rest ∧
      InFlow t flow (tokens ++ ((if fitsKey k then [.key] else []) ++ [token, .value])) := by
  have hsolid : isSolid ':' = true := by decide
  obtain ⟨s', hs', hrest', -, hsame, hstep⟩ :=
    h.step_eq (List.forall_mem_nil _) (by simpa using hsolid) (hrest.trans (List.nil_append _).symm)
  obtain ⟨hcursor', hpending'⟩ := hsame rfl
  have htoken (after : Option Char) : s'.token ':' after = s'.mappingValue := by
    rw [token_eq hrest' (by decide)]
    simp [hs'.flowLevel_eq, hflow]
  have hafter : s'.cursor.advance.rest = rest := by
    rw [Cursor.rest_advance, hrest', List.tail_cons]
  suffices hvalue : ∃ t, s'.mappingValue = .ok t ∧ t.cursor = s'.cursor.advance ∧
      InFlow t flow (tokens ++ ((if fitsKey k then [.key] else []) ++ [token, .value])) by
    obtain ⟨t, ht, htcursor, hinflow⟩ := hvalue
    refine ⟨t, ⟨?_, ?_, ?_⟩, htcursor ▸ hafter, hinflow⟩
    · rw [hstep, next_cons hrest', htoken, ht]
      rfl
    · rw [htcursor, hafter, hrest, List.length_cons]
      exact Nat.lt_succ_self _
    · exact h.streamEnd_notMem
  rw [hpending, List.filter_cons, isStale_eq hc hcursor, Bool.not_not] at hpending'
  by_cases hfits : fitsKey k = true
  · rw [if_pos hfits] at hpending'
    have hkey : s'.pendingKey? = some ⟨tokens.length, false, c.index, c.line, c.column⟩ := by
      rw [pendingKey?, hpending', hs'.flowLevel_eq, List.lookup_cons_self]
    have hforget : InFlow s'.forgetKey flow (tokens ++ [token]) :=
      hs'.of_pending s'.cursor s'.keyAllowed fun p hp => hs'.optional p (List.mem_filter.1 hp).1
    have hemit := hforget.insertKey.emit (show Token.value ≠ .streamEnd by decide)
    rw [hfits]
    refine ⟨{ (s'.forgetKey.insert tokens.length [.key]).emitMark .value with keyAllowed := false },
      ?_, rfl, ?_⟩
    · unfold mappingValue
      rw [hkey]
      show Except.ok
        { (if _ then _ else _ : TokenState).emitMark .value with keyAllowed := false } = _
      rw [if_neg (by simp [forgetKey, hs'.flowLevel_eq, hflow])]
    · have htokens : tokens ++ [.key, token] ++ [.value] =
          tokens ++ ([.key] ++ [token, .value]) := by simp
      exact htokens ▸ hemit.of_pending s'.cursor.advance false hemit.optional
  · have hkey : s'.pendingKey? = none := by
      rw [if_neg hfits] at hpending'
      rw [pendingKey?, hpending', hs'.flowLevel_eq, List.lookup_eq_none_iff]
      exact fun p hp => by simpa using (holder p (List.mem_filter.1 hp).1).symm
    have hemit := hs'.emit (show Token.value ≠ .streamEnd by decide)
    rw [if_neg hfits]
    refine ⟨{ s'.emitMark .value with keyAllowed := s'.flowLevel == 0 }, ?_, rfl, ?_⟩
    · unfold mappingValue
      rw [hkey]
      simp [openBlock, dropKey, hs'.flowLevel_eq, hflow, hkey]
    · have htokens : tokens ++ [token] ++ [.value] = tokens ++ ([] ++ [token, .value]) := by simp
      exact htokens ▸ hemit.of_pending s'.cursor.advance _ hemit.optional

/-- A key and its colon. -/
theorem exists_key {k text : List Char} (h : InFlow s flow tokens) (hflow : flow ≠ 0)
    (hallowed : s.keyAllowed = true) (hgap : ∀ ch ∈ gap, isLayout ch = true)
    (hread : ReadsAs k (.ok text))
    (hrest : s.cursor.rest = gap ++ (Json.string k ++ ':' :: rest)) :
    ∃ t, Leads s t ∧ InFlow t flow (tokens ++ keyTokens k text) ∧ t.cursor.rest = rest := by
  obtain ⟨s', hstring, hs', hrest', hkey⟩ := h.exists_string hgap hread hrest
  obtain ⟨c, older, hc, hcursor, holder, hpending⟩ := hkey hflow hallowed
  obtain ⟨t, hcolon, hafter, ht⟩ :=
    exists_colon hs' hflow hc hrest' hcursor holder hpending
  exact ⟨t, .head hstring (.single hcolon), ht, hafter⟩

end InFlow

end TokenState

end StackScript.Yaml
