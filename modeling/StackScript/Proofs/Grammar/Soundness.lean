import StackScript.Proofs.Grammar.Derivation
import StackScript.Proofs.Grammar.Edges
import StackScript.Proofs.Grammar.Parsed
import StackScript.Proofs.Grammar.Passing
import StackScript.Proofs.Number.Digits

/-!
# What the rules of the grammar read

A walk through the rules of the reader, one lemma for each, with induction on the bound where a rule
repeats, and on the levels that are left where rules nest. A rule that succeeds passes tokens that
the grammar derives for its result, the result has the form that the rule describes, and the rule
gives the same result for all tokens that say the same.

## Main definitions

* `Grammar.Yields`, `Grammar.YieldsInside`: tokens that the grammar derives for an expression that
  is read with a number of levels left.

## Main results

* `Reader.spans_primary`, `Reader.spans_suffixed`, `Reader.spans_unaryAt`: expressions without
  operators, with attributes, and with negations.
* `Reader.spans_expression`: the expressions of a statement.
-/

namespace StackScript

namespace Grammar

/-- The place that an expression of a kind may stand in. -/
def Phrase.place : Phrase → Nat
  | .disjunction => 1
  | .conjunction => 2
  | .comparison => 3
  | _ => 4

/-- Tokens that are derived for an expression, of which something is known if it is read with a
number of levels left. -/
structure Yields (levels : Nat) (phrase : Phrase) (ts : List Token) (e : Expr) : Prop where
  derives : Derives phrase ts e
  parsed : Parsed levels phrase.place e

/-- Tokens that are derived for an expression that is read one level further in. -/
structure YieldsInside (levels : Nat) (ts : List Token) (e : Expr) : Prop where
  derives : Derives .disjunction ts e
  parsed : ParsedInside levels e

/-- The last of tokens with signs between them. -/
theorem Separated.getLastD_mem {kind : TokenKind} {segments ts : List Token}
    (h : Separated kind (segments.map ([·])) ts) (d : Token) : ts.getLastD d ∈ segments := by
  generalize htss : segments.map ([·]) = tss at h
  induction h generalizing segments d with
  | single ts =>
    obtain ⟨t, rfl, rfl⟩ := List.map_eq_singleton_iff.1 htss
    exact List.mem_singleton.2 rfl
  | cons ts _ _ ih =>
    obtain ⟨t, segments, rfl, rfl, hmore⟩ := List.map_eq_cons_iff.1 htss
    rw [Reader.getLastD_append, List.getLastD_cons]
    exact List.mem_cons_of_mem _ (ih _ hmore)

/-- A type ends with a name or a string. -/
theorem DerivesType.getLastD_kind {ts : List Token} {type : String} (h : DerivesType ts type)
    (d : Token) : (ts.getLastD d).kind = .identifier ∨ (ts.getLastD d).kind = .string := by
  cases h with
  | segments hk hs => exact .inl (hk _ (hs.getLastD_mem d))
  | string hk => exact .inr hk

/-- An object ends with a brace. -/
theorem Derives.getLastD_kind {ts : List Token} {e : Expr} (h : Derives .object ts e) (d : Token) :
    (ts.getLastD d).kind = .rbrace := by
  cases h with
  | object _ _ _ _ _ hc =>
    rw [← List.cons_append, Reader.getLastD_append]
    exact hc

end Grammar

namespace Reader

open Grammar Number

variable {levels : Nat} {expr operand negated : Reader Expr} {R R' : List Token → Expr → Prop}

/-! ### Operators -/

theorem spans_operands {sign : TokenKind} (hsign : sign ≠ .eof) (h : Spans operand R)
    (limit : Nat) :
    Spans (operands sign operand limit) fun ts es => ∃ parts : List (List Token × Expr),
      es = parts.map Prod.snd ∧
        (∀ first, Separated sign (first :: parts.map Prod.fst) (first ++ ts)) ∧
        ∀ p ∈ parts, R p.1 p.2 := by
  have hnil : ∃ parts : List (List Token × Expr), [] = parts.map Prod.snd ∧
      (∀ first, Separated sign (first :: parts.map Prod.fst) (first ++ [])) ∧
      ∀ p ∈ parts, R p.1 p.2 := by
    refine ⟨[], rfl, fun first => ?_, by simp⟩
    rw [List.append_nil]
    exact .single first
  induction limit with
  | zero => exact fun _ => .pure hnil
  | succ limit ih =>
    refine fun previous => .accept hsign (fun t ht => ?_) (.pure hnil)
    refine (h t).bind fun ts e he => (ih _).bind ?_
    rintro ts' _ ⟨parts, rfl, hparts, hall⟩
    refine .pure ⟨(ts, e) :: parts, rfl, fun first => ?_, List.forall_mem_cons.2 ⟨he, hall⟩⟩
    rw [List.append_nil]
    exact .cons first ht (hparts ts)

theorem spans_joined {sign : TokenKind} {function : String} {operator : Operator}
    (hsign : sign ≠ .eof) (h : Spans operand R) (hsingle : ∀ {ts e}, R ts e → R' ts e)
    (hmany : ∀ {parts : List (List Token × Expr)} {ts}, 2 ≤ parts.length →
      Separated sign (parts.map Prod.fst) ts → (∀ p ∈ parts, R p.1 p.2) →
        R' ts (.call function (parts.map Prod.snd) (some operator))) :
    Spans (joined sign function operator operand) R' := by
  refine fun previous => (h previous).bind fun ts e he => .get fun s s' hr _ => ?_
  rw [hr]
  refine (spans_operands hsign h s.remaining _).of_any.bind ?_
  rintro ts' _ ⟨parts, rfl, hparts, hall⟩
  cases parts with
  | nil =>
    refine .pure fun _ => ?_
    rw [List.append_nil]
    have hnone := hparts ts
    generalize ts ++ ts' = all at hnone
    cases hnone with
    | single => exact hsingle he
    | cons _ _ h => cases h
  | cons p parts =>
    refine .pure fun _ => ?_
    rw [List.append_nil]
    exact @hmany ((ts, e) :: p :: parts) _ (by simp) (hparts ts)
      (List.forall_mem_cons.2 ⟨he, hall⟩)

theorem spans_comparison {unary : Reader Expr} (h : Spans unary (Yields levels .unary)) :
    Spans (comparison unary) (Yields levels .comparison) := by
  refine fun previous => (h previous).bind fun ts left hleft => ?_
  refine .acceptAny (by decide) (fun sign sign' hsign hw => ?_) (.pure ?_)
  · have hkind' : sign'.kind = sign.kind := congrArg Word.kind hw
    refine (h sign).bind fun ts' right hright => .atAny ?_ ?_
    · exact .current fun _ _ _ _ _ => .failAt
    · rw [hkind']
      by_cases hkind : sign.kind = .doubleEquals
      · simp only [hkind, if_true]
        refine .pure ?_
        rw [List.append_nil]
        exact ⟨.equality hleft.derives hkind hright.derives, hleft.parsed.equality hright.parsed⟩
      · simp only [hkind]
        refine .pure ?_
        rw [List.append_nil]
        have hne : sign.kind = .notEquals := by simpa [hkind] using hsign
        exact ⟨.inequality hleft.derives hne hright.derives, hleft.parsed.inequality hright.parsed⟩
  · rw [List.append_nil]
    exact ⟨.side hleft.derives, hleft.parsed.lower (by decide)⟩

theorem spans_disjunction {unary : Reader Expr} (h : Spans unary (Yields levels .unary)) :
    Spans (disjunction unary) (Yields levels .disjunction) := by
  have hconjunction : Spans (conjunction unary) (Yields levels .conjunction) := by
    refine spans_joined (by decide) (spans_comparison h)
      (fun h => ⟨.conjunct h.derives, h.parsed.lower (by decide)⟩) fun hn hs hall => ?_
    exact ⟨.conjunction hn hs fun p hp => (hall p hp).derives, .conjunction (by simpa using hn)
      (List.forall_mem_map.2 fun p hp => (hall p hp).parsed)⟩
  refine spans_joined (by decide) hconjunction
    (fun h => ⟨.disjunct h.derives, h.parsed.lower (by decide)⟩) fun hn hs hall => ?_
  exact ⟨.disjunction hn hs fun p hp => (hall p hp).derives, .disjunction (by simpa using hn)
    (List.forall_mem_map.2 fun p hp => (hall p hp).parsed)⟩

/-! ### Lists of things -/

theorem spans_pathSegments (limit : Nat) :
    Spans (pathSegments limit) fun ts path => ts.length < limit → ∃ segments : List Token,
      path = segments.map Token.value ∧ (∀ t ∈ segments, t.kind = .string) ∧
        Separated .comma (segments.map ([·])) ts := by
  induction limit with
  | zero => exact fun _ => .pure fun h => absurd h (Nat.not_lt_zero _)
  | succ limit ih =>
    refine fun previous => .current fun t t' _ _ hw => ?_
    have hkind' : t'.kind = t.kind := congrArg Word.kind hw
    rw [hkind']
    by_cases hkind : t.kind = .string
    · rw [if_pos hkind, if_pos hkind]
      refine .advance (by rintro _ rfl; simp [hkind]) ?_
      rintro t t' rfl - hw
      have hvalue' : t'.value = t.value := congrArg Word.value hw
      rw [hvalue']
      refine .accept (by decide) (fun comma hcomma => (ih comma).bind fun ts path hpath => ?_) ?_
      · refine .pure fun hlength => ?_
        obtain ⟨segments, rfl, hstrings, hsep⟩ := hpath (by simp at hlength; omega)
        refine ⟨t :: segments, rfl, List.forall_mem_cons.2 ⟨hkind, hstrings⟩, ?_⟩
        rw [List.append_nil]
        exact .cons [t] hcomma hsep
      · exact .pure fun _ => ⟨[t], rfl, by simpa using hkind, .single [t]⟩
    · rw [if_neg hkind]
      exact .failAt

theorem spans_arguments (h : Spans expr R) :
    Spans (arguments expr) fun ts args => ∃ parts : List (List Token × Expr),
      args = parts.map Prod.snd ∧
        (parts = [] ∧ ts = [] ∨ Separated .comma (parts.map Prod.fst) ts) ∧
        ∀ p ∈ parts, R p.1 p.2 := by
  refine fun previous => .at? (.pure ⟨[], rfl, .inl ⟨rfl, rfl⟩, by simp⟩) ?_
  refine (h previous).bind fun ts e he => .get fun s s' hr _ => ?_
  rw [hr, moreArguments_eq]
  refine (spans_operands (by decide) h s.remaining _).of_any.bind ?_
  rintro ts' _ ⟨parts, rfl, hparts, hall⟩
  refine .pure fun _ => ⟨(ts, e) :: parts, rfl, .inr ?_, List.forall_mem_cons.2 ⟨he, hall⟩⟩
  rw [List.append_nil]
  exact hparts ts

theorem spans_arrayItems (h : Spans expr R) (limit : Nat) :
    Spans (arrayItems expr limit) fun ts items => ∃ parts : List (List Token × Expr),
      items = parts.map Prod.snd ∧ Listed (parts.map Prod.fst) ts ∧ ∀ p ∈ parts, R p.1 p.2 := by
  induction limit with
  | zero => exact fun _ => .pure ⟨[], rfl, .nil, by simp⟩
  | succ limit ih =>
    refine fun previous => .at? (.pure ⟨[], rfl, .nil, by simp⟩) ?_
    refine (h previous).bind fun ts e he => ?_
    refine .accept (by decide) (fun comma hcomma => (ih comma).bind ?_) (.pure ?_)
    · rintro ts' _ ⟨parts, rfl, hparts, hall⟩
      refine .pure ⟨(ts, e) :: parts, rfl, ?_, List.forall_mem_cons.2 ⟨he, hall⟩⟩
      rw [List.append_nil]
      exact hparts.cons hcomma
    · rw [List.append_nil]
      exact ⟨[(ts, e)], rfl, .plain (.single ts), by simpa using he⟩

theorem spans_objectFields (h : Spans expr R) (seen : List String) (limit : Nat) :
    Spans (objectFields expr seen limit) fun ts properties => ∃ fields : List Field,
      properties = fields.map Field.field ∧ Listed (fields.map Field.tokens) ts ∧
        (∀ f ∈ fields, (f.key.kind ∈ [.identifier, .string, .number] ∧ f.colon.kind = .colon) ∧
          R f.inside f.value ∧ f.key.value ∉ seen) ∧
        (fields.map fun f => f.key.value).Nodup := by
  induction limit generalizing seen with
  | zero => exact fun _ => .pure ⟨[], rfl, .nil, by simp, .nil⟩
  | succ limit ih =>
    refine fun previous => .at? (.pure ⟨[], rfl, .nil, by simp, .nil⟩)
      (.current fun key key' _ _ hw => ?_)
    have hkind' : key'.kind = key.kind := congrArg Word.kind hw
    have hvalue' : key'.value = key.value := congrArg Word.value hw
    rw [hkind', hvalue']
    by_cases hkind : key.kind ∈ [.identifier, .string, .number]
    · rw [List.contains_iff_mem.2 hkind]
      refine .advance (by rintro _ rfl hend; simp [hend] at hkind) ?_
      rintro key _ rfl - -
      by_cases hseen : key.value ∈ seen
      · rw [if_pos (List.contains_iff_mem.2 hseen)]
        exact .failAt
      have hnew : ¬ seen.contains key.value = true := mt List.contains_iff_mem.1 hseen
      rw [if_neg hnew, if_neg hnew]
      refine .expect (by decide) fun colon _ _ hcolon _ _ => (h colon).bind fun ts e he => ?_
      refine .accept (by decide) (fun comma hcomma => (ih (key.value :: seen) comma).bind ?_)
        (.pure ?_)
      · rintro ts' _ ⟨fields, rfl, hfields, hall, hnodup⟩
        refine .pure ⟨⟨key, colon, ts, e⟩ :: fields, rfl, ?_, ?_, ?_⟩
        · rw [List.append_nil]
          exact @Listed.cons _ (key :: colon :: ts) _ _ hcomma hfields
        · refine List.forall_mem_cons.2 ⟨⟨⟨hkind, hcolon⟩, he, hseen⟩, fun f hf => ?_⟩
          obtain ⟨hsigns, hvalue, hnew⟩ := hall f hf
          exact ⟨hsigns, hvalue, fun hmem => hnew (List.mem_cons_of_mem _ hmem)⟩
        · refine List.nodup_cons.2 ⟨fun hmem => ?_, hnodup⟩
          obtain ⟨f, hf, hkey⟩ := List.mem_map.1 hmem
          exact (hall f hf).2.2 (hkey ▸ List.mem_cons_self ..)
      · rw [List.append_nil]
        refine ⟨[⟨key, colon, ts, e⟩], rfl, .plain (.single _), ?_, by simp⟩
        exact List.forall_mem_singleton.2 ⟨⟨hkind, hcolon⟩, he, hseen⟩
    · rw [Bool.eq_false_iff.2 (mt List.contains_iff_mem.1 hkind)]
      exact .failAt

theorem spans_fields (h : Spans expr (YieldsInside levels)) :
    Spans (fields expr) fun ts properties => Yields levels .object ts (.object properties) := by
  refine fun previous => .expect (by decide) fun opening _ _ hopening _ _ =>
    .get fun s s' hr _ => ?_
  rw [hr]
  refine (spans_objectFields h [] s.remaining _).of_any.bind ?_
  rintro ts _ ⟨fields, rfl, hfields, hall, hnodup⟩
  refine .expect (by decide) fun closing _ _ hclosing _ _ => .pure fun _ => ⟨?_, ?_⟩
  · exact .object hopening hfields (fun f hf => (hall f hf).1)
      (fun f hf => (hall f hf).2.1.derives) hnodup hclosing
  · exact .object (by rwa [List.map_map])
      (List.forall_mem_map.2 fun f hf => (hall f hf).2.1.parsed)

theorem spans_array (h : Spans expr (YieldsInside levels)) :
    Spans (array expr) (Yields levels .primary) := by
  refine fun previous => .expect (by decide) fun opening _ _ hopening _ _ =>
    .get fun s s' hr _ => ?_
  rw [hr]
  refine (spans_arrayItems h s.remaining _).of_any.bind ?_
  rintro ts _ ⟨parts, rfl, hparts, hall⟩
  refine .expect (by decide) fun closing _ _ hclosing _ _ => .pure fun _ => ?_
  exact ⟨.array hopening hparts (fun p hp => (hall p hp).derives) hclosing,
    .array (List.forall_mem_map.2 fun p hp => (hall p hp).parsed)⟩

/-! ### Calls -/

/-- A reference by a call has one string as its argument. -/
theorem checkRef_cases (args : List Expr) :
    (∃ s, args = [.literal (.str s)] ∧ ∀ token, checkRef token args = pure ()) ∨
      ∀ token, ∃ fault, checkRef token args = failAt token fault := by
  rcases args with _ | ⟨arg, _ | ⟨second, more⟩⟩
  · exact .inr fun token => ⟨_, rfl⟩
  · cases arg with
    | literal s =>
      cases s with
      | str s => exact .inl ⟨s, rfl, fun _ => rfl⟩
      | _ => exact .inr fun token => ⟨_, rfl⟩
    | _ => exact .inr fun token => ⟨_, rfl⟩
  · cases arg <;> exact .inr fun token => ⟨_, rfl⟩

/-- A call of a function whose name is the current token. -/
theorem passes_call {token previous : Token} (hname : IsName token.value)
    (h : Spans expr (YieldsInside levels)) :
    Passes (· = token) previous (call expr) (call expr) (Same (Yields levels .primary)) := by
  refine .expect (by decide) ?_
  rintro token token' rfl hkind - hw
  have hvalue' : token'.value = token.value := congrArg Word.value hw
  rw [hvalue']
  refine .expect (by decide) fun opening _ _ hopening _ _ => (spans_arguments h _).bind ?_
  rintro ts _ ⟨parts, rfl, hparts, hall⟩
  refine .expect (by decide) fun closing _ _ hclosing _ _ => ?_
  have hyields (href : token.value = "Ref" → ∃ s, parts.map Prod.snd = [.literal (.str s)]) :
      Yields levels .primary (token :: opening :: (ts ++ [closing]))
        (.call token.value (parts.map Prod.snd) none) :=
    ⟨.call hkind hname hopening hparts (fun p hp => (hall p hp).derives) hclosing href,
      .call hname href (List.forall_mem_map.2 fun p hp => (hall p hp).parsed)⟩
  by_cases href : token.value = "Ref"
  · rw [if_pos href, if_pos href]
    obtain ⟨s, hs, hcheck⟩ | hcheck := checkRef_cases (parts.map Prod.snd)
    · rw [hcheck, hcheck, pure_bind]
      exact .pure (hyields fun _ => ⟨s, hs⟩)
    · obtain ⟨fault, hfault⟩ := hcheck token
      rw [hfault]
      exact .failAt_bind
  · rw [if_neg href, if_neg href]
    exact .pure (hyields fun h => absurd h href)

/-! ### Declarations -/

theorem spans_typeSegments (limit : Nat) (segments : List String) :
    Spans (typeSegments segments limit) fun ts all => ∃ more : List Token,
      all = segments ++ more.map Token.value ∧ (∀ t ∈ more, t.kind = .identifier) ∧
        ∀ first : Token, Separated .doubleColon ((first :: more).map ([·])) (first :: ts) := by
  have hnil (segments : List String) : ∃ more : List Token,
      segments = segments ++ more.map Token.value ∧ (∀ t ∈ more, t.kind = .identifier) ∧
        ∀ first : Token, Separated .doubleColon ((first :: more).map ([·])) [first] :=
    ⟨[], by simp, by simp, fun first => .single [first]⟩
  induction limit generalizing segments with
  | zero => exact fun _ => .pure (hnil segments)
  | succ limit ih =>
    refine fun previous => .accept (by decide) (fun sign hsign => .current fun t t' _ _ hw => ?_)
      (.pure (hnil segments))
    have hkind' : t'.kind = t.kind := congrArg Word.kind hw
    rw [hkind']
    by_cases hkind : t.kind = .identifier
    · rw [if_pos hkind, if_pos hkind]
      refine .advance (by rintro _ rfl; simp [hkind]) ?_
      rintro t t' rfl - hw
      have hvalue' : t'.value = t.value := congrArg Word.value hw
      rw [hvalue']
      refine (ih (segments ++ [t.value]) t).imp ?_
      rintro ts _ ⟨more, rfl, hmore, hsep⟩
      refine ⟨t :: more, by simp, List.forall_mem_cons.2 ⟨hkind, hmore⟩, fun first => ?_⟩
      exact .cons [first] hsign (hsep t)
    · rw [if_neg hkind]
      exact .failAt

/-- Names with double colons between them are not empty. -/
private theorem intercalate_ne_empty {first : String} (hfirst : first ≠ "") (more : List String) :
    "::".intercalate (first :: more) ≠ "" := by
  intro h
  have hlist := congrArg String.toList h
  rw [String.toList_intercalate] at hlist
  cases more <;> simp [List.intercalate, hfirst] at hlist

theorem spans_resourceType :
    Spans resourceType fun ts type => DerivesType ts type ∧ type ≠ "" := by
  refine fun previous => .current fun t t' _ _ hw => ?_
  have hkind' : t'.kind = t.kind := congrArg Word.kind hw
  have hvalue' : t'.value = t.value := congrArg Word.value hw
  rw [hkind', hvalue']
  by_cases hstring : t.kind = .string
  · rw [if_pos hstring, if_pos hstring]
    refine .advance (by rintro _ rfl; simp [hstring]) ?_
    rintro t _ rfl - -
    by_cases hempty : t.value.isEmpty = true
    · rw [if_pos hempty]
      exact .failAt
    · rw [if_neg hempty, if_neg hempty]
      exact .pure ⟨.string hstring, by simpa using hempty⟩
  rw [if_neg hstring, if_neg hstring]
  by_cases hkind : t.kind = .identifier
  · rw [if_pos hkind, if_pos hkind]
    refine .advance (by rintro _ rfl; simp [hkind]) ?_
    rintro t t' rfl hlexical hw
    have hvalue' : t'.value = t.value := congrArg Word.value hw
    refine .get fun s s' hr _ => ?_
    rw [hr, hvalue']
    refine (spans_typeSegments s.remaining [t.value] _).of_any.bind ?_
    rintro ts _ ⟨more, rfl, hmore, hsep⟩
    refine .pure fun _ => ?_
    rw [List.append_nil]
    have hword : t.value ≠ "" := by
      intro hvalue
      have := hlexical.word hkind
      rw [hvalue] at this
      exact absurd this (by decide)
    exact ⟨.segments (List.forall_mem_cons.2 ⟨hkind, hmore⟩) (hsep t),
      intercalate_ne_empty hword _⟩
  · rw [if_neg hkind]
    exact .failAt

theorem checkPolicy_cases (name : String) (value : Expr) :
    (PolicyHolds (name, value) ∧ ∀ token, token.value = name → checkPolicy token value = pure ()) ∨
      ∀ token, token.value = name → ∃ fault, checkPolicy token value = failAt token fault := by
  cases hp : policyValues? name with
  | none =>
    refine .inl ⟨fun allowed x h => ?_, fun token ht => ?_⟩
    · rw [hp] at h
      cases h
    · simp only [checkPolicy, ht, hp]
  | some allowed =>
    by_cases hname : ∃ x, value = .name x
    · obtain ⟨x, rfl⟩ := hname
      by_cases hx : allowed.contains x = true
      · refine .inl ⟨fun allowed' y h hy => ?_, fun token ht => ?_⟩
        · cases hp.symm.trans h
          cases hy
          exact hx
        · simp only [checkPolicy, ht, hp, hx, if_true]
      · refine .inr fun token ht => ⟨.policyValue token.value x allowed, ?_⟩
        simp only [checkPolicy, ht, hp, hx]
        rfl
    · refine .inl ⟨fun allowed' y h hy => absurd ⟨y, hy⟩ hname, fun token ht => ?_⟩
      unfold checkPolicy
      split
      · exact absurd ⟨_, rfl⟩ hname
      · rfl

theorem passes_modifiers (h : Spans expr R) (limit : Nat) (seen : List String) {previous : Token}
    (hprevious : [TokenKind.lbrace, .comma].contains previous.kind = false) :
    Passes anyToken previous (modifiers expr seen limit) (modifiers expr seen limit)
      (Same fun ts attributes => ∃ ms : List Modifier, attributes = ms.map Modifier.field ∧
        ts = ms.flatMap Modifier.tokens ∧
        (∀ m ∈ ms, (m.name.kind = .identifier ∧ m.opening.kind = .lparen ∧
          m.closing.kind = .rparen ∧ m.name.value ∈ modifierNames ∧ PolicyHolds m.field) ∧
          R m.inside m.value ∧ m.name.value ∉ seen) ∧
        (ms.map fun m => m.name.value).Nodup ∧ FollowOn previous ms) := by
  induction limit generalizing seen previous with
  | zero => exact .pure ⟨[], rfl, rfl, by simp, .nil, trivial⟩
  | succ limit ih =>
    refine .atModifier hprevious (.advance ?_ ?_) (.pure ⟨[], rfl, rfl, by simp, .nil, trivial⟩)
    · rintro t ⟨hkind, -⟩
      simp [hkind]
    rintro name name' ⟨hkind, hname, hline⟩ - hw
    have hvalue' : name'.value = name.value := congrArg Word.value hw
    rw [hvalue']
    by_cases hseen : name.value ∈ seen
    · rw [if_pos (List.contains_iff_mem.2 hseen)]
      exact .failAt
    have hnew : ¬ seen.contains name.value = true := mt List.contains_iff_mem.1 hseen
    rw [if_neg hnew, if_neg hnew]
    refine .expect (by decide) fun opening _ _ hopening _ _ => (h opening).bind fun ts e he => ?_
    refine .expect (by decide) fun closing _ _ hclosing _ _ => ?_
    obtain ⟨hpolicy, hcheck⟩ | hcheck := checkPolicy_cases name.value e
    · rw [hcheck name rfl, hcheck name' hvalue', pure_bind]
      refine (ih (name.value :: seen) (by rw [hclosing]; rfl)).bind ?_
      rintro _ _ ⟨ms, rfl, rfl, hall, hnodup, hfollow⟩
      refine .pure ⟨⟨name, opening, ts, closing, e⟩ :: ms, rfl, ?_, ?_, ?_, hline, hfollow⟩
      · simp [Modifier.tokens]
      · refine List.forall_mem_cons.2 ⟨⟨⟨hkind, hopening, hclosing, ?_, hpolicy⟩, he, hseen⟩, ?_⟩
        · exact List.contains_iff_mem.1 hname
        · intro m hm
          obtain ⟨hsigns, hvalue, hnew⟩ := hall m hm
          exact ⟨hsigns, hvalue, fun hmem => hnew (List.mem_cons_of_mem _ hmem)⟩
      · refine List.nodup_cons.2 ⟨fun hmem => ?_, hnodup⟩
        obtain ⟨m, hm, heq⟩ := List.mem_map.1 hmem
        exact (hall m hm).2.2 (heq ▸ List.mem_cons_self ..)
    · obtain ⟨fault, hfault⟩ := hcheck name rfl
      rw [hfault]
      exact .failAt_bind

/-- The modifiers of a resource whose type and properties have been passed. -/
private theorem passes_attributes {keyword : Token} {typeTokens : List Token} {type : String}
    (hkind : keyword.kind = .identifier) (hkeyword : keyword.value = "Resource")
    (htype : DerivesType typeTokens type) (hne : type ≠ "")
    (properties : Option (List Token × List (String × Expr)))
    (hproperties : ∀ p ∈ properties, Yields levels .object p.1 (.object p.2))
    (h : Spans expr (YieldsInside levels)) :
    Passes anyToken (((properties.map Prod.fst).getD []).getLastD (typeTokens.getLastD keyword))
      (do
        let attributes ← modifiers expr [] (← get).remaining
        return .resource type (properties.map Prod.snd) attributes)
      (do
        let attributes ← modifiers expr [] (← get).remaining
        return .resource type (properties.map Prod.snd) attributes)
      (Same fun ts => Yields levels .primary
        (keyword :: (typeTokens ++ ((properties.map Prod.fst).getD [] ++ ts)))) := by
  -- The last token is neither a brace that opens nor a comma, so that the ends of lines agree.
  have hprevious : [TokenKind.lbrace, .comma].contains
      (((properties.map Prod.fst).getD []).getLastD (typeTokens.getLastD keyword)).kind =
        false := by
    cases properties with
    | none =>
      change [TokenKind.lbrace, .comma].contains (typeTokens.getLastD keyword).kind = false
      rcases htype.getLastD_kind keyword with hlast | hlast <;> (rw [hlast]; rfl)
    | some p =>
      change [TokenKind.lbrace, .comma].contains (p.1.getLastD _).kind = false
      rw [(hproperties p rfl).derives.getLastD_kind]
      rfl
  refine .get fun s s' hr _ => ?_
  rw [hr]
  refine (passes_modifiers h s.remaining [] hprevious).of_any.bind ?_
  rintro _ _ ⟨ms, rfl, rfl, hall, hnodup, hfollow⟩
  refine .pure fun _ => ?_
  rw [List.append_nil]
  rw [← getLastD_append] at hfollow
  refine ⟨.resource hkind hkeyword htype hne (fun p hp => (hproperties p hp).derives)
    (fun m hm => (hall m hm).1) (fun m hm => (hall m hm).2.1.derives) hnodup hfollow, ?_⟩
  refine .resource hne (fun fields hfields => ?_) ?_ (by rwa [List.map_map]) ?_ ?_
  · obtain ⟨p, hp, rfl⟩ := Option.map_eq_some_iff.1 hfields
    exact (hproperties p hp).parsed
  · exact List.forall_mem_map.2 fun m hm => List.contains_iff_mem.2 (hall m hm).1.2.2.2.1
  · exact List.forall_mem_map.2 fun m hm => (hall m hm).2.1.parsed
  · exact List.forall_mem_map.2 fun m hm => (hall m hm).1.2.2.2.2

/-- The declaration of a resource whose keyword is the current token. -/
theorem passes_resource {token previous : Token} (htoken : token.value = "Resource")
    (h : Spans expr (YieldsInside levels)) :
    Passes (· = token) previous (resource expr) (resource expr)
      (Same (Yields levels .primary)) := by
  refine .expect (by decide) ?_
  rintro token _ rfl hkind - -
  refine (spans_resourceType token).bind fun typeTokens type htype => .at? ?_ ?_
  · simp only [if_true, map_eq_pure_bind, bind_assoc, pure_bind]
    refine (spans_fields h _).of_any.bind fun ts properties hfields => ?_
    exact passes_attributes hkind htoken htype.1 htype.2 (some (ts, properties))
      (by simpa using hfields) h
  · simp only [Bool.false_eq_true, if_false, pure_bind]
    exact passes_attributes hkind htoken htype.1 htype.2 none (by simp) h

/-- The object of a declaration whose keyword has been passed. -/
theorem passes_declarationBody {keyword keyword' : Token} {kind : BodyKind}
    (hkind : keyword.kind = .identifier) (hkeyword : keyword.value = kind.keyword)
    (h : Spans expr (YieldsInside levels)) :
    Passes anyToken keyword (declarationBody expr keyword) (declarationBody expr keyword')
      (Same fun ts properties =>
        Yields levels .primary (keyword :: ts) (.body kind properties)) := by
  refine .at? ((spans_fields h keyword).of_any.imp fun ts properties hfields => ?_) (.at? ?_ ?_)
  · exact ⟨.body hkind hkeyword hfields.derives, hfields.parsed.body⟩
  · refine .peek fun next next' hw => ?_
    have hkind' : next'.kind = next.kind := congrArg Word.kind hw
    rw [hkind']
    by_cases hbrace : next.kind = .lbrace
    · rw [if_pos hbrace, if_pos hbrace]
      refine .advance (by rintro t ⟨-, ht⟩; simp [ht]) fun opening _ hopening _ _ => ?_
      refine (spans_fields h opening).bind fun ts properties hfields => ?_
      refine .expect (by decide) fun closing _ _ hclosing _ _ => .pure ⟨?_, hfields.parsed.body⟩
      exact .groupedBody hkind hkeyword hopening.2 hfields.derives hclosing
    · rw [if_neg hbrace, if_neg hbrace]
      exact .current fun _ _ _ _ _ => .current fun _ _ _ _ _ => .failAt
  · exact .current fun _ _ _ _ _ => .current fun _ _ _ _ _ => .failAt

/-! ### Primary expressions -/

/-- The keyword of a declaration with a body. -/
private theorem keyword_of_ofKeyword {word : String} {kind : BodyKind}
    (h : BodyKind.ofKeyword? word = some kind) : word = kind.keyword := by
  have := List.find?_some h
  simpa using (eq_of_beq this).symm

private theorem keywordLiteral_cases {x : String} {s : Scalar} (h : keywordLiteral? x = some s) :
    ∀ n, s ≠ .int n := by
  intro n
  unfold keywordLiteral? at h
  split at h <;> cases h <;> simp

/-- The current token is passed. -/
private theorem passes_token {α : Type} {token previous : Token} (heof : token.kind ≠ .eof)
    {f f' : Token → Reader α} {Q : List Token → α → α → Prop}
    (hf : ∀ t', Passes anyToken token (f token) (f' t') fun ts => Q (token :: ts)) :
    Passes (· = token) previous (advance >>= f) (advance >>= f') Q := by
  refine .advance (by rintro _ rfl; exact heof) ?_
  rintro _ t' rfl - -
  exact hf t'

/-- An expression that starts with a word, which is the current token. -/
theorem passes_word {token token' previous : Token} (hkind : token.kind = .identifier)
    (hvalue : token'.value = token.value) (hlexical : token.IsLexical)
    (h : Spans expr (YieldsInside levels)) :
    Passes (· = token) previous (word expr token) (word expr token')
      (Same (Yields levels .primary)) := by
  have heof : token.kind ≠ .eof := by simp [hkind]
  unfold word
  rw [hvalue]
  cases hliteral : keywordLiteral? token.value with
  | some s =>
    refine passes_token heof fun _ => .pure ⟨.word hkind hliteral, .literal fun n hn => ?_⟩
    exact absurd hn (keywordLiteral_cases hliteral n)
  | none =>
    dsimp only
    by_cases hresource : token.value = "Resource"
    · rw [if_pos hresource, if_pos hresource]
      exact passes_resource hresource h
    rw [if_neg hresource, if_neg hresource]
    by_cases hcondition : token.value = "Condition"
    · rw [if_pos hcondition, if_pos hcondition]
      refine passes_token heof fun _ => (h token).bind fun ts test htest => .pure ?_
      rw [List.append_nil]
      exact ⟨.condition hkind hcondition htest.derives, .condition htest.parsed⟩
    rw [if_neg hcondition, if_neg hcondition]
    cases hbody : BodyKind.ofKeyword? token.value with
    | some kind =>
      refine passes_token heof fun _ =>
        (passes_declarationBody hkind (keyword_of_ofKeyword hbody) h).bind ?_
      refine fun ts properties hderives => .pure ?_
      rwa [List.append_nil]
    | none =>
      have hname : IsName token.value :=
        ⟨hlexical.word hkind, hliteral, hresource, hcondition, hbody⟩
      refine .peek fun next next' hw => ?_
      have hkind' : next'.kind = next.kind := congrArg Word.kind hw
      rw [hkind']
      by_cases hparen : next.kind = .lparen
      · rw [if_pos hparen]
        exact passes_call hname h
      · rw [if_neg hparen]
        exact passes_token heof fun _ => .pure ⟨.name hkind hname, .name hname⟩

theorem spans_primary (h : Spans expr (YieldsInside levels)) :
    Spans (primary expr) (Yields levels .primary) := by
  refine fun previous => .current fun token token' _ hlexical hw => ?_
  have hkind' : token'.kind = token.kind := congrArg Word.kind hw
  have hvalue' : token'.value = token.value := congrArg Word.value hw
  rw [hkind', hvalue']
  split
  next hkind =>
    exact passes_token (by simp [hkind]) fun _ => .pure ⟨.string hkind, .literal nofun⟩
  next hkind =>
    refine passes_token (by simp [hkind]) fun _ => ?_
    cases hvalue : numberValue token.value.toList with
    | some s =>
      have hlexical := hlexical (by simp [hkind])
      refine .pure ⟨.number hkind hlexical hvalue, .literal fun n hn => ?_⟩
      exact writeInt_isSome (hn ▸ hvalue) (hlexical.numeral hkind)
    | none => exact .throw
  next hkind =>
    refine (spans_fields h previous).of_any.bind fun ts properties hfields => .pure ?_
    rw [List.append_nil]
    exact ⟨.objectLiteral hfields.derives, hfields.parsed⟩
  next hkind => exact (spans_array h previous).of_any
  next hkind =>
    refine passes_token (by simp [hkind]) fun _ => (h token).bind fun ts e he => ?_
    refine .expect (by decide) fun closing _ _ hclosing _ _ => .pure ?_
    exact ⟨.grouped hkind he.derives hclosing, .grouped he.parsed⟩
  next hkind => exact passes_word hkind hvalue' (hlexical (by simp [hkind])) h
  next => exact .failAt

/-! ### Attribute access -/

theorem spans_bracketPath :
    Spans bracketPath fun ts path => ∃ (opening closing : Token) (inside segments : List Token),
      ts = opening :: (inside ++ [closing]) ∧ path = segments.map Token.value ∧
        opening.kind = .lbracket ∧ (∀ t ∈ segments, t.kind = .string) ∧
        Separated .comma (segments.map ([·])) inside ∧ closing.kind = .rbracket := by
  refine fun previous => .expect (by decide) fun opening _ _ hopening _ _ =>
    .get fun s s' hr _ => ?_
  rw [hr]
  refine (spans_pathSegments s.remaining _).of_any.bind fun inside path hpath => ?_
  refine .expect (by decide) fun closing _ _ hclosing _ _ => .pure fun hlength => ?_
  obtain ⟨segments, rfl, hstrings, hsep⟩ := hpath (by simp at hlength; omega)
  exact ⟨opening, closing, inside, segments, rfl, rfl, hopening, hstrings, hsep, hclosing⟩

/-- An attribute of an expression, unless that is a pseudo parameter. -/
private theorem yields_dotted {ts : List Token} {base : Expr} {dot attr : Token}
    (h : Yields levels .suffixed ts base) (hdot : dot.kind = .dot)
    (hattr : attr.kind = .identifier) (hlexical : attr.IsLexical) :
    (∃ e, (∀ dot', dotted base dot' attr.value = pure e) ∧
        Yields levels .suffixed (ts ++ [dot, attr]) e) ∨
      ∃ fault, dotted base dot attr.value = failAt dot fault := by
  have hword := hlexical.word hattr
  by_cases hstarts : base.startsPath = true
  · refine .inl ⟨.member base [attr.value], fun _ => ?_, .member h.derives hstarts hdot hattr,
      h.parsed.member hword fun x hx => ?_⟩
    · cases base with
      | name x =>
        simp only [Expr.startsPath, Bool.and_eq_true, bne_iff_ne, Bool.not_eq_true'] at hstarts
        rw [dotted, if_neg hstarts.1, if_neg (by simp [hstarts.2])]
      | member => cases hstarts
      | _ => rfl
    · subst hx
      simpa [Expr.startsPath] using hstarts
  · cases base with
    | name x =>
      by_cases hbase : x = Expr.pseudoBase
      · subst hbase
        exact .inl ⟨_, fun _ => rfl, .pseudo h.derives hdot hattr, .pseudo hword⟩
      · have hpseudo : Expr.isPseudo x = true := by simpa [Expr.startsPath, hbase] using hstarts
        exact .inr ⟨.pseudoAttribute x, by rw [dotted, if_neg hbase, if_pos hpseudo]⟩
    | member inner path =>
      exact .inl ⟨_, fun _ => rfl, .further h.derives hdot hattr, h.parsed.member_append hword⟩
    | _ => exact absurd rfl hstarts

theorem passes_accesses (limit : Nat) {ts : List Token} {base : Expr}
    (h : Yields levels .suffixed ts base) (previous : Token) :
    Passes anyToken previous (accesses base limit) (accesses base limit)
      (Same fun ts' => Yields levels .suffixed (ts ++ ts')) := by
  have hnil : Yields levels .suffixed (ts ++ []) base := by rwa [List.append_nil]
  induction limit generalizing ts base previous with
  | zero => exact .pure hnil
  | succ limit ih =>
    refine .at? (.advance (by rintro t ⟨-, ht⟩; simp [ht]) fun dot _ hdot _ _ => ?_) (.at? ?_ ?_)
    · refine .expect (by decide) fun attr attr' _ hattr hlexical hw => ?_
      have hvalue' : attr'.value = attr.value := congrArg Word.value hw
      rw [hvalue']
      obtain ⟨e, he, hyields⟩ | ⟨fault, hfault⟩ := yields_dotted h hdot.2 hattr hlexical
      · rw [he, he, pure_bind]
        refine (ih hyields attr (by rwa [List.append_nil])).imp fun ts' e' h' => ?_
        rwa [List.append_assoc] at h'
      · rw [hfault]
        exact .failAt_bind
    · refine (spans_bracketPath previous).of_any.bind ?_
      rintro _ _ ⟨opening, closing, inside, segments, rfl, rfl, hopening, hstrings, hsep, hclosing⟩
      have hne : segments.map Token.value ≠ [] := by
        have := hsep.getLastD_mem opening
        simpa using List.ne_nil_of_mem this
      have hyields : Yields levels .suffixed _ _ :=
        ⟨.bracket h.derives hopening hstrings hsep hclosing, h.parsed.bracket hne⟩
      refine (ih hyields _ (by rwa [List.append_nil])).imp fun ts' e' h' => ?_
      rwa [List.append_assoc] at h'
    · exact .pure hnil

theorem spans_suffixed (h : Spans expr (YieldsInside levels)) :
    Spans (suffixed expr) (Yields levels .suffixed) := by
  refine fun previous => (spans_primary h previous).bind fun ts e he => .get fun s s' hr _ => ?_
  rw [hr]
  exact (passes_accesses s.remaining ⟨.plain he.derives, he.parsed⟩ _).of_any.imp fun _ _ h _ => h

/-! ### All levels -/

theorem spans_unary
    (hn : Spans negated fun ts e => 0 < levels ∧ Yields (levels - 1) .unary ts e)
    (h : Spans expr (YieldsInside levels)) :
    Spans (unary negated expr) (Yields levels .unary) := by
  refine fun previous => .accept (by decide) (fun bang hbang => ?_) ?_
  · refine (hn bang).bind fun ts e he => .pure ?_
    rw [List.append_nil]
    exact ⟨.negation hbang he.2.derives, he.2.parsed.negation he.1⟩
  · exact (spans_suffixed h previous).imp fun _ _ he => ⟨.operand he.derives, he.parsed⟩

theorem spans_unaryAt (limit levels : Nat) :
    Spans (unaryAt limit levels) (Yields levels .unary) := by
  induction levels with
  | zero => exact spans_unary (fun _ => .tooDeep) fun _ => .tooDeep
  | succ levels ih =>
    refine spans_unary (fun previous => (ih previous).within.imp ?_) fun previous =>
      (spans_disjunction ih previous).within.imp ?_
    · exact fun _ _ he => ⟨Nat.succ_pos _, he⟩
    · exact fun _ _ he => ⟨he.derives, Nat.succ_pos _, he.parsed⟩

theorem spans_expression (limit : Nat) : Spans (expression limit) (YieldsInside limit) := by
  refine fun previous => .get fun s s' _ hd => ?_
  rw [hd]
  cases hlevels : limit - s.depth with
  | zero => exact .tooDeep
  | succ levels =>
    refine (spans_disjunction (spans_unaryAt limit levels) _).within.of_any.imp fun _ _ he _ => ?_
    exact ⟨he.derives, by omega, he.parsed.mono (by omega)⟩

end Reader

end StackScript
