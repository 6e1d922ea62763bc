import StackScript.Proofs.Grammar.Derivation
import StackScript.Proofs.Grammar.Edges
import StackScript.Proofs.Grammar.Takes

/-!
# The rules read what the grammar derives

An expression without declarations is read from every list of tokens that the grammar derives it
from, if these do not nest too deep: brackets with something in them, parentheses and negations take
one level each. The tokens may stand on any lines, commas may follow the last item of an array or an
object, and anything may come after the token that ends the expression.

## Main definitions

* `Grammar.DerivesIn`: the tokens of expressions without declarations, with their nesting.
* `Reader.phraseRule`, `Reader.phraseStop`: the rule for a phrase, and the tokens that may follow.

## Main results

* `Grammar.DerivesIn.derives`: what is derived with levels is derived by the grammar.
* `Reader.takesPhrase_of_derivesIn`: the rule for a phrase takes the tokens it is derived from.
-/

namespace StackScript

namespace Grammar

/-! ### Derivations with levels -/

/-- The tokens of an expression without declarations that nests no deeper than a number of
levels. -/
inductive DerivesIn : (levels : Nat) → Phrase → List Token → Expr → Prop
  | disjunct {levels : Nat} {ts : List Token} {e : Expr} (h : DerivesIn levels .conjunction ts e) :
      DerivesIn levels .disjunction ts e
  | disjunction {levels : Nat} {parts : List (List Token × Expr)} {ts : List Token}
      (hn : 2 ≤ parts.length) (hs : Separated .doublePipe (parts.map Prod.fst) ts)
      (h : ∀ p ∈ parts, DerivesIn levels .conjunction p.1 p.2) :
      DerivesIn levels .disjunction ts (.call "Or" (parts.map Prod.snd) (some .or))
  | conjunct {levels : Nat} {ts : List Token} {e : Expr} (h : DerivesIn levels .comparison ts e) :
      DerivesIn levels .conjunction ts e
  | conjunction {levels : Nat} {parts : List (List Token × Expr)} {ts : List Token}
      (hn : 2 ≤ parts.length) (hs : Separated .doubleAmpersand (parts.map Prod.fst) ts)
      (h : ∀ p ∈ parts, DerivesIn levels .comparison p.1 p.2) :
      DerivesIn levels .conjunction ts (.call "And" (parts.map Prod.snd) (some .and))
  | side {levels : Nat} {ts : List Token} {e : Expr} (h : DerivesIn levels .unary ts e) :
      DerivesIn levels .comparison ts e
  | equality {levels : Nat} {ts ts' : List Token} {left right : Expr} {sign : Token}
      (hl : DerivesIn levels .unary ts left) (hs : sign.kind = .doubleEquals)
      (hr : DerivesIn levels .unary ts' right) :
      DerivesIn levels .comparison (ts ++ sign :: ts') (.call "Equals" [left, right] (some .eq))
  | inequality {levels : Nat} {ts ts' : List Token} {left right : Expr} {sign : Token}
      (hl : DerivesIn levels .unary ts left) (hs : sign.kind = .notEquals)
      (hr : DerivesIn levels .unary ts' right) :
      DerivesIn levels .comparison (ts ++ sign :: ts')
        (.call "Not" [.call "Equals" [left, right] none] (some .ne))
  | negation {levels inner : Nat} {bang : Token} {ts : List Token} {e : Expr}
      (hb : bang.kind = .bang) (hi : inner < levels) (h : DerivesIn inner .unary ts e) :
      DerivesIn levels .unary (bang :: ts) (.call "Not" [e] (some .not))
  | operand {levels : Nat} {ts : List Token} {e : Expr} (h : DerivesIn levels .suffixed ts e) :
      DerivesIn levels .unary ts e
  | plain {levels : Nat} {ts : List Token} {e : Expr} (h : DerivesIn levels .primary ts e) :
      DerivesIn levels .suffixed ts e
  | pseudo {levels : Nat} {ts : List Token} {dot attr : Token}
      (h : DerivesIn levels .suffixed ts (.name Expr.pseudoBase)) (hd : dot.kind = .dot)
      (ha : attr.kind = .identifier) :
      DerivesIn levels .suffixed (ts ++ [dot, attr]) (.name (pseudoName attr.value))
  | member {levels : Nat} {ts : List Token} {base : Expr} {dot attr : Token}
      (h : DerivesIn levels .suffixed ts base) (hb : base.startsPath = true) (hd : dot.kind = .dot)
      (ha : attr.kind = .identifier) :
      DerivesIn levels .suffixed (ts ++ [dot, attr]) (.member base [attr.value])
  | further {levels : Nat} {ts : List Token} {base : Expr} {path : List String}
      {dot attr : Token} (h : DerivesIn levels .suffixed ts (.member base path))
      (hd : dot.kind = .dot) (ha : attr.kind = .identifier) :
      DerivesIn levels .suffixed (ts ++ [dot, attr]) (.member base (path ++ [attr.value]))
  | bracket {levels : Nat} {ts path segments : List Token} {base : Expr}
      {opening closing : Token} (h : DerivesIn levels .suffixed ts base)
      (ho : opening.kind = .lbracket) (hk : ∀ t ∈ segments, t.kind = .string)
      (hs : Separated .comma (segments.map ([·])) path) (hc : closing.kind = .rbracket) :
      DerivesIn levels .suffixed (ts ++ opening :: (path ++ [closing]))
        (.bracket base (segments.map Token.value))
  | string {levels : Nat} {t : Token} (hk : t.kind = .string) :
      DerivesIn levels .primary [t] (.literal (.str t.value))
  | number {levels : Nat} {t : Token} {s : Scalar} (hk : t.kind = .number) (hl : t.IsLexical)
      (hs : Reader.numberValue t.value.toList = some s) :
      DerivesIn levels .primary [t] (.literal s)
  | word {levels : Nat} {t : Token} {s : Scalar} (hk : t.kind = .identifier)
      (hs : Reader.keywordLiteral? t.value = some s) : DerivesIn levels .primary [t] (.literal s)
  | grouped {levels inner : Nat} {ts : List Token} {e : Expr} {opening closing : Token}
      (ho : opening.kind = .lparen) (hi : inner < levels) (h : DerivesIn inner .disjunction ts e)
      (hc : closing.kind = .rparen) : DerivesIn levels .primary (opening :: (ts ++ [closing])) e
  | objectLiteral {levels : Nat} {ts : List Token} {e : Expr} (h : DerivesIn levels .object ts e) :
      DerivesIn levels .primary ts e
  | array {levels inner : Nat} {parts : List (List Token × Expr)} {ts : List Token}
      {opening closing : Token} (ho : opening.kind = .lbracket)
      (hs : Listed (parts.map Prod.fst) ts) (hi : parts ≠ [] → inner < levels)
      (h : ∀ p ∈ parts, DerivesIn inner .disjunction p.1 p.2) (hc : closing.kind = .rbracket) :
      DerivesIn levels .primary (opening :: (ts ++ [closing])) (.array (parts.map Prod.snd))
  | call {levels inner : Nat} {name : Token} {parts : List (List Token × Expr)} {ts : List Token}
      {opening closing : Token} (hk : name.kind = .identifier) (hn : IsName name.value)
      (ho : opening.kind = .lparen)
      (hs : parts = [] ∧ ts = [] ∨ Separated .comma (parts.map Prod.fst) ts)
      (hi : parts ≠ [] → inner < levels) (h : ∀ p ∈ parts, DerivesIn inner .disjunction p.1 p.2)
      (hc : closing.kind = .rparen)
      (href : name.value = "Ref" → ∃ s, parts.map Prod.snd = [.literal (.str s)]) :
      DerivesIn levels .primary (name :: opening :: (ts ++ [closing]))
        (.call name.value (parts.map Prod.snd) none)
  | name {levels : Nat} {t : Token} (hk : t.kind = .identifier) (hn : IsName t.value) :
      DerivesIn levels .primary [t] (.name t.value)
  | object {levels inner : Nat} {fields : List Field} {ts : List Token} {opening closing : Token}
      (ho : opening.kind = .lbrace) (hs : Listed (fields.map Field.tokens) ts)
      (hf : ∀ f ∈ fields, f.key.kind ∈ [.identifier, .string, .number] ∧ f.colon.kind = .colon)
      (hi : fields ≠ [] → inner < levels)
      (h : ∀ f ∈ fields, DerivesIn inner .disjunction f.inside f.value)
      (hd : (fields.map fun f => f.key.value).Nodup) (hc : closing.kind = .rbrace) :
      DerivesIn levels .object (opening :: (ts ++ [closing])) (.object (fields.map Field.field))

/-- What is derived with levels is derived by the grammar. -/
theorem DerivesIn.derives {levels : Nat} {phrase : Phrase} {ts : List Token} {e : Expr}
    (h : DerivesIn levels phrase ts e) : Derives phrase ts e := by
  induction h with
  | disjunct _ ih => exact .disjunct ih
  | disjunction hn hs _ ih => exact .disjunction hn hs ih
  | conjunct _ ih => exact .conjunct ih
  | conjunction hn hs _ ih => exact .conjunction hn hs ih
  | side _ ih => exact .side ih
  | equality _ hs _ ihl ihr => exact .equality ihl hs ihr
  | inequality _ hs _ ihl ihr => exact .inequality ihl hs ihr
  | negation hb _ _ ih => exact .negation hb ih
  | operand _ ih => exact .operand ih
  | plain _ ih => exact .plain ih
  | pseudo _ hd ha ih => exact .pseudo ih hd ha
  | member _ hb hd ha ih => exact .member ih hb hd ha
  | further _ hd ha ih => exact .further ih hd ha
  | bracket _ ho hk hs hc ih => exact .bracket ih ho hk hs hc
  | string hk => exact .string hk
  | number hk hl hs => exact .number hk hl hs
  | word hk hs => exact .word hk hs
  | grouped ho _ _ hc ih => exact .grouped ho ih hc
  | objectLiteral _ ih => exact .objectLiteral ih
  | array ho hs _ _ hc ih => exact .array ho hs ih hc
  | call hk hn ho hs _ _ hc href ih => exact .call hk hn ho hs ih hc href
  | name hk hn => exact .name hk hn
  | object ho hs hf _ _ hd hc ih => exact .object ho hs hf ih hd hc

/-! ### Places -/

/-- The phrase for a place. -/
def phraseAt : (place : Nat) → Phrase
  | 0 | 1 => .disjunction
  | 2 => .conjunction
  | 3 => .comparison
  | _ => .unary

/-- A phrase for a place is one for every place that asks for less. -/
theorem derivesIn_of_le {levels place other : Nat} {ts : List Token} {e : Expr}
    (hle : place ≤ other) (h : DerivesIn levels (phraseAt other) ts e) :
    DerivesIn levels (phraseAt place) ts e := by
  induction hle with
  | refl => exact h
  | @step other _ ih =>
    refine ih ?_
    rcases other with _ | _ | _ | _ | other
    · exact h
    · exact .disjunct h
    · exact .conjunct h
    · exact .side h
    · exact h

/-- What has no operator outside of parentheses may stand in all places. -/
theorem derivesIn_of_suffixed {levels : Nat} {ts : List Token} {e : Expr} (place : Nat)
    (h : DerivesIn levels .suffixed ts e) : DerivesIn levels (phraseAt place) ts e := by
  have hunary : DerivesIn levels (phraseAt (place + 4)) ts e := .operand h
  exact derivesIn_of_le (Nat.le_add_right place 4) hunary

/-! ### First tokens -/

/-- The kinds of tokens that a phrase starts with. -/
def Phrase.firstKinds : Phrase → List TokenKind
  | .object => [.lbrace]
  | .primary | .suffixed => [.identifier, .string, .number, .lbrace, .lbracket, .lparen]
  | _ => Reader.startKinds

/-- Tokens that start with one of some kinds. -/
def StartsIn (kinds : List TokenKind) (ts : List Token) : Prop :=
  ∃ t more, ts = t :: more ∧ t.kind ∈ kinds

theorem StartsIn.append {kinds : List TokenKind} {ts : List Token} (h : StartsIn kinds ts)
    (ts' : List Token) : StartsIn kinds (ts ++ ts') := by
  obtain ⟨t, more, rfl, ht⟩ := h
  exact ⟨t, more ++ ts', rfl, ht⟩

theorem StartsIn.mono {kinds kinds' : List TokenKind} {ts : List Token} (h : StartsIn kinds ts)
    (hsub : ∀ kind ∈ kinds, kind ∈ kinds') : StartsIn kinds' ts := by
  obtain ⟨t, more, rfl, ht⟩ := h
  exact ⟨t, more, rfl, hsub _ ht⟩

theorem StartsIn.kind_headD {kinds : List TokenKind} {ts : List Token} (h : StartsIn kinds ts)
    (next : Token) : (ts.headD next).kind ∈ kinds := by
  obtain ⟨t, more, rfl, ht⟩ := h
  exact ht

theorem Separated.startsIn {kind : TokenKind} {kinds : List TokenKind} {tss : List (List Token)}
    {ts : List Token} (hs : Separated kind tss ts) (h : ∀ ts ∈ tss, StartsIn kinds ts) :
    StartsIn kinds ts := by
  cases hs with
  | single => exact h _ (by simp)
  | cons => exact (h _ (by simp)).append _

theorem DerivesIn.startsIn {levels : Nat} {phrase : Phrase} {ts : List Token} {e : Expr}
    (h : DerivesIn levels phrase ts e) : StartsIn phrase.firstKinds ts := by
  induction h with
  | disjunct _ ih | conjunct _ ih | side _ ih | plain _ ih => exact ih
  | disjunction _ hs _ ih | conjunction _ hs _ ih => exact hs.startsIn (List.forall_mem_map.2 ih)
  | equality _ _ _ ih | inequality _ _ _ ih => exact ih.append _
  | negation hb => exact ⟨_, _, rfl, by rw [hb]; decide⟩
  | operand _ ih => exact ih.mono (by decide)
  | pseudo _ _ _ ih | member _ _ _ _ ih | further _ _ _ ih | bracket _ _ _ _ _ ih =>
    exact ih.append _
  | string hk | number hk | word hk | call hk | name hk => exact ⟨_, _, rfl, by rw [hk]; decide⟩
  | grouped ho | array ho | object ho => exact ⟨_, _, rfl, by rw [ho]; decide⟩
  | objectLiteral _ ih => exact ih.mono (by decide)

end Grammar

namespace Reader

open Grammar

variable {limit levels : Nat} {operand expr : Reader Expr} {stop stop' : Token → Prop} {e : Expr}
  {ts ts' : List Token} {parts : List (List Token × Expr)}

/-! ### Operators -/

theorem takes_operands_nil {sign : TokenKind} (bound : Nat) :
    Takes (operands sign operand bound) (fun t => t.kind ≠ sign) [] [] := by
  cases bound with
  | zero => exact takes_pure []
  | succ bound => exact takes_accept_false.bind_nil (takes_pure [])

/-- Operands, each after a sign. -/
theorem takes_operands {kind : TokenKind} {sign : Token} (hkind : kind ≠ .eof)
    (hsign : sign.kind = kind) (hs : Separated kind (parts.map Prod.fst) ts)
    (hstop : ∀ t : Token, t.kind = kind → stop t) (hstop' : ∀ t, stop' t → stop t ∧ t.kind ≠ kind)
    (h : ∀ p ∈ parts, Takes operand stop p.1 p.2) {bound : Nat} (hbound : parts.length ≤ bound) :
    Takes (operands kind operand bound) stop' (sign :: ts) (parts.map Prod.snd) := by
  generalize htss : parts.map Prod.fst = tss at hs
  induction hs generalizing parts sign bound with
  | single ts =>
    obtain ⟨p, rfl, rfl⟩ := List.map_eq_singleton_iff.1 htss
    obtain ⟨bound, rfl⟩ := Nat.exists_eq_add_of_le' hbound
    refine (takes_accept_true hsign hkind).cons ?_
    have hnil : Takes (operands kind operand bound) stop' [] [] :=
      (takes_operands_nil bound).weaken fun t ht => (hstop' t ht).2
    exact ((h p (by simp)).weaken fun t ht => (hstop' t ht).1).bind_nil hnil.bind_pure
  | @cons ts sign' tss rest hsign' _ ih =>
    obtain ⟨p, parts, rfl, rfl, rfl⟩ := List.map_eq_cons_iff.1 htss
    rw [List.forall_mem_cons] at h
    obtain ⟨bound, rfl⟩ := Nat.exists_eq_add_of_le' (Nat.one_le_of_lt hbound)
    refine (takes_accept_true hsign hkind).cons (h.1.bind ?_ fun _ _ => hstop sign' hsign')
    exact (ih hsign' h.2 (Nat.le_of_succ_le_succ hbound) rfl).bind_pure

/-- There are no more operands than tokens. -/
theorem length_le_of_separated {kind : TokenKind} {tss : List (List Token)}
    (hs : Separated kind tss ts) : tss.length ≤ ts.length + 1 := by
  induction hs with
  | single => simp
  | cons _ _ _ ih =>
    simp only [List.length_cons, List.length_append]
    omega

/-- Two or more operands with a sign between them. -/
theorem takes_joined {kind : TokenKind} {function : String} {operator : Operator}
    (hkind : kind ≠ .eof) (hn : 2 ≤ parts.length) (hs : Separated kind (parts.map Prod.fst) ts)
    (hstop : ∀ t : Token, t.kind = kind → stop t) (hstop' : ∀ t, stop' t → stop t ∧ t.kind ≠ kind)
    (h : ∀ p ∈ parts, Takes operand stop p.1 p.2) :
    Takes (joined kind function operator operand) stop' ts
      (.call function (parts.map Prod.snd) (some operator)) := by
  generalize htss : parts.map Prod.fst = tss at hs
  cases hs with
  | single ts =>
    obtain ⟨p, rfl, rfl⟩ := List.map_eq_singleton_iff.1 htss
    simp at hn
  | @cons ts sign tss rest hsign hs =>
    obtain ⟨p, parts, rfl, rfl, rfl⟩ := List.map_eq_cons_iff.1 htss
    rw [List.forall_mem_cons] at h
    refine h.1.bind (.get fun s hlength => ?_) fun _ _ => hstop sign hsign
    have hbound : parts.length ≤ s.remaining := by
      have := length_le_of_separated hs
      rw [List.length_map] at this
      rw [List.length_cons] at hlength
      omega
    refine (takes_operands hkind hsign hs hstop hstop' h.2 hbound).bind_nil ?_
    obtain ⟨q, parts, rfl⟩ := List.exists_cons_of_ne_nil (show parts ≠ [] by
      rintro rfl
      simp at hn)
    exact takes_pure _

/-- A single operand. -/
theorem takes_joined_single {kind : TokenKind} {function : String} {operator : Operator}
    (h : Takes operand stop ts e) (hstop' : ∀ t, stop' t → stop t ∧ t.kind ≠ kind) :
    Takes (joined kind function operator operand) stop' ts e := by
  refine (h.weaken fun t ht => (hstop' t ht).1).bind_nil (.get fun s _ => ?_)
  refine Takes.bind_nil (a := []) ?_ (takes_pure e)
  exact (takes_operands_nil s.remaining).weaken fun t ht => (hstop' t ht).2

/-- Two operands that are compared. -/
theorem takes_comparison {left right : Expr} (sign : Token)
    (hsign : sign.kind ∈ [.doubleEquals, .notEquals]) (hl : Takes operand (Stops 4) ts left)
    (hr : Takes operand (Stops 4) ts' right) :
    Takes (comparison operand) (Stops 3) (ts ++ sign :: ts')
      (if sign.kind = .doubleEquals then .call "Equals" [left, right] (some .eq)
        else .call "Not" [.call "Equals" [left, right] none] (some .ne)) := by
  have hkinds : ∀ kind ∈ [TokenKind.doubleEquals, .notEquals],
      kind ≠ .eof ∧ kind ∉ continuing 4 ∧ kind ∈ continuing 3 := by decide
  obtain ⟨heof, hstop, -⟩ := hkinds _ hsign
  refine hl.bind ((takes_acceptAny_some hsign heof).cons ?_) fun _ _ => hstop
  refine (hr.weaken fun t ht => ht.mono (by omega)).bind_nil ?_
  refine Takes.bind_nil (takes_atAny_false.weaken fun t ht hmem => ht (hkinds _ hmem).2.2) ?_
  rw [if_neg Bool.false_ne_true]
  split_ifs
  · exact takes_pure _
  · exact takes_pure _

/-! ### Lists of things -/

/-- Items that are taken one after the other, each with what is known from those before it. -/
def TakesEach {σ γ : Type} (item : σ → Reader γ) (update : σ → γ → σ) (stop : Token → Prop) :
    σ → List (List Token × γ) → Prop
  | _, [] => True
  | s, p :: parts => Takes (item s) stop p.1 p.2 ∧ TakesEach item update stop (update s p.2) parts

section Loop

variable {σ γ : Type} {item : σ → Reader γ} {update : σ → γ → σ} (loop : σ → Nat → Reader (List γ))
  {close : TokenKind} (kinds : List TokenKind) {items : List (List Token × γ)} {s : σ}
  (hloop : ∀ s bound, loop s (bound + 1) = do
    if ← at? close then return []
    else
      let first ← item s
      if ← accept .comma then return first :: (← loop (update s first) bound)
      else return [first])
include hloop

private theorem takes_loop_nil {bound : Nat} (hbound : 0 < bound) :
    Takes (loop s bound) (fun t => t.kind = close) [] [] := by
  obtain ⟨bound, rfl⟩ := Nat.exists_eq_add_of_le' hbound
  rw [hloop]
  exact takes_at_true.bind_nil (takes_pure [])

variable (hclose : close ≠ .comma) (hkinds : close ∉ kinds)
include hclose hkinds

private theorem takes_loop_separated (hs : Separated .comma (items.map Prod.fst) ts)
    {last : List Token} (hlast : last = [] ∨ ∃ comma : Token, comma.kind = .comma ∧ last = [comma])
    (hfirst : ∀ p ∈ items, StartsIn kinds p.1)
    (h : TakesEach item update (fun t => t.kind ∈ [.comma, close]) s items) {bound : Nat}
    (hbound : items.length < bound) :
    Takes (loop s bound) (fun t => t.kind = close) (ts ++ last) (items.map Prod.snd) := by
  have hopen {ts : List Token} (hts : StartsIn kinds ts) (next : Token) :
      (ts.headD next).kind ≠ close := fun heq => hkinds (heq ▸ hts.kind_headD next)
  generalize htss : items.map Prod.fst = tss at hs
  induction hs generalizing items s bound with
  | single ts =>
    obtain ⟨p, rfl, rfl⟩ := List.map_eq_singleton_iff.1 htss
    obtain ⟨bound, rfl⟩ := Nat.exists_eq_add_of_le' (Nat.one_le_of_lt hbound)
    rw [hloop]
    refine takes_at_false.look ?_ fun next _ => hopen ((hfirst p (by simp)).append _) next
    rcases hlast with rfl | ⟨comma, hcomma, rfl⟩
    · refine h.1.bind (Takes.bind_nil (takes_accept_false.weaken fun t ht => ?_) (takes_pure _))
        fun next hnext => ?_
      · rw [ht]
        exact hclose
      · simp only [List.headD_nil, hnext]
        simp
    · refine h.1.bind ((takes_accept_true hcomma (by decide)).cons ?_) fun _ _ => by simp [hcomma]
      exact (takes_loop_nil loop hloop (Nat.lt_of_succ_lt_succ hbound)).bind_pure
  | @cons ts sign tss rest hsign _ ih =>
    obtain ⟨p, items, rfl, rfl, rfl⟩ := List.map_eq_cons_iff.1 htss
    rw [List.forall_mem_cons] at hfirst
    obtain ⟨bound, rfl⟩ := Nat.exists_eq_add_of_le' (Nat.one_le_of_lt hbound)
    rw [hloop, List.append_assoc]
    refine takes_at_false.look ?_ fun next _ => hopen (hfirst.1.append _) next
    refine h.1.bind ((takes_accept_true hsign (by decide)).cons ?_) fun _ _ => by simp [hsign]
    exact (ih hfirst.2 h.2 (Nat.lt_of_succ_lt_succ hbound) rfl).bind_pure

/-- A loop over items with commas between them, up to a closing bracket. A comma may follow the last
item. -/
theorem takes_loop (hs : Listed (items.map Prod.fst) ts) (hfirst : ∀ p ∈ items, StartsIn kinds p.1)
    (h : TakesEach item update (fun t => t.kind ∈ [.comma, close]) s items) {bound : Nat}
    (hbound : items.length < bound) :
    Takes (loop s bound) (fun t => t.kind = close) ts (items.map Prod.snd) := by
  generalize htss : items.map Prod.fst = tss at hs
  cases hs with
  | nil =>
    obtain rfl := List.map_eq_nil_iff.1 htss
    exact takes_loop_nil loop hloop hbound
  | plain hs =>
    subst htss
    have h := takes_loop_separated loop kinds hloop hclose hkinds hs (.inl rfl) hfirst h hbound
    rwa [List.append_nil] at h
  | trailing hs hcomma =>
    subst htss
    exact takes_loop_separated loop kinds hloop hclose hkinds hs (.inr ⟨_, hcomma, rfl⟩) hfirst h
      hbound

end Loop

/-- There are fewer items than tokens, brackets included. -/
theorem length_lt_of_listed {tss : List (List Token)} (hs : Listed tss ts) :
    tss.length < ts.length + 2 := by
  cases hs with
  | nil => simp
  | plain hs => exact Nat.lt_succ_of_le (length_le_of_separated hs)
  | trailing hs =>
    have := length_le_of_separated hs
    simp only [List.length_append, List.length_singleton]
    omega

/-- What is derived for an expression in brackets. -/
structure TakesInside (expr : Reader Expr) (ts : List Token) (e : Expr) : Prop where
  takes : Takes expr (Stops 1) ts e
  startsIn : StartsIn startKinds ts

theorem takes_array (hs : Listed (parts.map Prod.fst) ts)
    (h : ∀ p ∈ parts, TakesInside expr p.1 p.2) {opening closing : Token}
    (ho : opening.kind = .lbracket) (hc : closing.kind = .rbracket) :
    Takes (array expr) stop (opening :: (ts ++ [closing])) (.array (parts.map Prod.snd)) := by
  have heach : TakesEach (fun _ : Unit => expr) (fun s _ => s)
      (fun t => t.kind ∈ [.comma, .rbracket]) () parts := by
    clear hs
    induction parts with
    | nil => trivial
    | cons p parts ih =>
      rw [List.forall_mem_cons] at h
      refine ⟨h.1.takes.weaken fun t ht => stops_of_mem ?_, ih h.2⟩
      revert ht
      cases t.kind <;> decide
  refine (takes_expect ho (by decide)).cons (.get fun s hlength => ?_)
  have hbound : parts.length < s.remaining := by
    have := length_lt_of_listed hs
    rw [List.length_map] at this
    rw [List.length_append, List.length_singleton] at hlength
    omega
  have hitems : Takes (arrayItems expr s.remaining) (fun t => t.kind = .rbracket) ts
      (parts.map Prod.snd) :=
    takes_loop (fun _ => arrayItems expr) startKinds (fun _ _ => rfl) (by decide) (by decide) hs
      (fun p hp => (h p hp).startsIn) heach hbound
  exact hitems.bind (takes_expect hc (by decide)).bind_pure fun _ _ => hc

/-- A property of an object: a key that has not been seen, a colon and a value. -/
def property (expr : Reader Expr) (seen : List String) : Reader (String × Expr) := do
  let key ← current
  if !([.identifier, .string, .number].contains key.kind) then failAt key (.expectedKey key)
  else
    let _ ← advance
    if seen.contains key.value then failAt key (.duplicateKey key.value)
    else
      let _ ← expect .colon
      return (key.value, ← expr)

theorem objectFields_succ (expr : Reader Expr) (seen : List String) (bound : Nat) :
    objectFields expr seen (bound + 1) = do
      if ← at? .rbrace then return []
      else
        let first ← property expr seen
        if ← accept .comma then return first :: (← objectFields expr (first.1 :: seen) bound)
        else return [first] := by
  have failAt_bind {α β : Type} (t : Token) (fault : ParseFault) (f : α → Reader β) :
      (failAt t fault >>= f) = failAt t fault := rfl
  rw [objectFields]
  refine bind_congr fun closed => ?_
  split_ifs
  · rfl
  · simp only [property, bind_assoc]
    refine bind_congr fun key => ?_
    split_ifs
    · rw [failAt_bind]
    · simp only [bind_assoc, failAt_bind]
    · simp only [bind_assoc, pure_bind]

theorem takes_property {f : Field} {seen : List String}
    (hkey : f.key.kind ∈ [.identifier, .string, .number]) (hcolon : f.colon.kind = .colon)
    (hseen : f.key.value ∉ seen) (h : Takes expr (Stops 1) f.inside f.value) :
    Takes (property expr seen) (Stops 1) f.tokens f.field := by
  have hkinds : ∀ kind ∈ [TokenKind.identifier, .string, .number],
      kind ≠ .eof ∧ (!([.identifier, .string, .number].contains kind)) = false := by decide
  obtain ⟨heof, hallowed⟩ := hkinds _ hkey
  refine .current ?_
  rw [hallowed, if_neg Bool.false_ne_true]
  refine (takes_advance heof).cons ?_
  rw [List.contains_eq_mem, decide_eq_false hseen, if_neg Bool.false_ne_true]
  exact (takes_expect hcolon (by decide)).cons h.bind_pure

theorem takes_fields {fields : List Field} (hs : Listed (fields.map Field.tokens) ts)
    (hf : ∀ f ∈ fields, f.key.kind ∈ [.identifier, .string, .number] ∧ f.colon.kind = .colon)
    (h : ∀ f ∈ fields, TakesInside expr f.inside f.value)
    (hd : (fields.map fun f => f.key.value).Nodup) {opening closing : Token}
    (ho : opening.kind = .lbrace) (hc : closing.kind = .rbrace) :
    Takes (Reader.fields expr) stop (opening :: (ts ++ [closing])) (fields.map Field.field) := by
  have heach {seen : List String} (hseen : ∀ f ∈ fields, f.key.value ∉ seen) :
      TakesEach (property expr) (fun seen p => p.1 :: seen)
        (fun t => t.kind ∈ [.comma, .rbrace]) seen (fields.map fun f => (f.tokens, f.field)) := by
    clear hs
    induction fields generalizing seen with
    | nil => trivial
    | cons f fields ih =>
      rw [List.forall_mem_cons] at hf h hseen
      rw [List.map_cons, List.nodup_cons] at hd
      refine ⟨(takes_property hf.1.1 hf.1.2 hseen.1 h.1.takes).weaken fun t ht => stops_of_mem ?_,
        ih hf.2 h.2 hd.2 fun g hg hmem => ?_⟩
      · revert ht
        cases t.kind <;> decide
      · rcases List.mem_cons.1 hmem with heq | hmem
        · exact hd.1 (List.mem_map.2 ⟨g, hg, heq⟩)
        · exact hseen.2 g hg hmem
  have hlist :
      (fields.map fun f => (f.tokens, f.field)).map Prod.fst = fields.map Field.tokens := by
    rw [List.map_map]
    rfl
  have hvalues :
      (fields.map fun f => (f.tokens, f.field)).map Prod.snd = fields.map Field.field := by
    rw [List.map_map]
    rfl
  refine (takes_expect ho (by decide)).cons (.get fun s hlength => ?_)
  have hbound : fields.length < s.remaining := by
    have := length_lt_of_listed hs
    rw [List.length_map] at this
    rw [List.length_append, List.length_singleton] at hlength
    omega
  have hfields : Takes (objectFields expr [] s.remaining) (fun t => t.kind = .rbrace) ts
      (fields.map Field.field) := by
    rw [← hvalues]
    refine takes_loop (objectFields expr) [.identifier, .string, .number]
      (objectFields_succ expr) (by decide) (by decide) (hlist ▸ hs)
      (List.forall_mem_map.2 fun f hfield => ⟨_, _, rfl, (hf f hfield).1⟩) (heach (by simp)) ?_
    rwa [List.length_map]
  exact hfields.bind (takes_expect hc (by decide)).bind_pure fun _ _ => hc

/-! ### Calls -/

private theorem takes_arguments
    (hs : parts = [] ∧ ts = [] ∨ Separated .comma (parts.map Prod.fst) ts)
    (h : ∀ p ∈ parts, TakesInside expr p.1 p.2) :
    Takes (arguments expr) (fun t => t.kind = .rparen) ts (parts.map Prod.snd) := by
  have hstop (t : Token) (ht : t.kind ∈ [.comma, .rparen]) : Stops 1 t :=
    stops_of_mem (by revert ht; cases t.kind <;> decide)
  have hstop' (t : Token) (ht : t.kind = .rparen) : Stops 1 t ∧ t.kind ≠ .comma :=
    ⟨hstop t (by simp [ht]), by rw [ht]; decide⟩
  rcases hs with ⟨rfl, rfl⟩ | hs
  · exact takes_at_true.bind_nil (takes_pure [])
  have hstart : StartsIn startKinds ts :=
    hs.startsIn (List.forall_mem_map.2 fun p hp => (h p hp).startsIn)
  refine takes_at_false.look ?_ fun next _ heq => ?_
  · generalize htss : parts.map Prod.fst = tss at hs
    cases hs with
    | single ts =>
      obtain ⟨p, rfl, rfl⟩ := List.map_eq_singleton_iff.1 htss
      refine ((h p (by simp)).takes.weaken fun t ht => (hstop' t ht).1).bind_nil
        (.get fun s _ => ?_)
      rw [moreArguments_eq]
      exact ((takes_operands_nil s.remaining).weaken fun t ht => (hstop' t ht).2).bind_pure
    | @cons ts sign tss rest hsign hs =>
      obtain ⟨p, parts, rfl, rfl, rfl⟩ := List.map_eq_cons_iff.1 htss
      rw [List.forall_mem_cons] at h
      refine h.1.takes.bind (.get fun s hlength => ?_) fun _ _ => hstop sign (by simp [hsign])
      have hbound : parts.length ≤ s.remaining := by
        have := length_le_of_separated hs
        rw [List.length_map] at this
        rw [List.length_cons] at hlength
        omega
      rw [moreArguments_eq]
      exact (takes_operands (by decide) hsign hs (fun t ht => hstop t (by simp [ht])) hstop'
        (fun p hp => (h.2 p hp).takes) hbound).bind_pure
  · have := hstart.kind_headD next
    rw [heq] at this
    exact absurd this (by decide)

/-- An expression that starts with a name. -/
private theorem takes_primary_of_isName {t : Token} (hk : t.kind = .identifier)
    (hn : IsName t.value)
    (h : Takes (do
      if (← peek).kind = .lparen then call expr
      else
        let _ ← advance
        return .name t.value) stop (t :: ts) e) : Takes (primary expr) stop (t :: ts) e := by
  refine .current ?_
  rw [hk]
  unfold word
  simp only [hn.literal, hn.resource, hn.condition, hn.body, if_false]
  exact h

theorem takes_primary_name {t : Token} (hk : t.kind = .identifier) (hn : IsName t.value) :
    Takes (primary expr) (fun t => t.kind ≠ .lparen) [t] (.name t.value) := by
  refine takes_primary_of_isName hk hn (.peek_next fun next hnext => ?_)
  rw [if_neg hnext]
  exact (takes_advance (by simp [hk])).bind_pure

theorem takes_primary_call {name opening closing : Token} (hk : name.kind = .identifier)
    (hn : IsName name.value) (ho : opening.kind = .lparen)
    (hs : parts = [] ∧ ts = [] ∨ Separated .comma (parts.map Prod.fst) ts)
    (h : ∀ p ∈ parts, TakesInside expr p.1 p.2) (hc : closing.kind = .rparen)
    (href : name.value = "Ref" → ∃ s, parts.map Prod.snd = [.literal (.str s)]) :
    Takes (primary expr) stop (name :: opening :: (ts ++ [closing]))
      (.call name.value (parts.map Prod.snd) none) := by
  refine takes_primary_of_isName hk hn (.peek ?_)
  rw [if_pos ho]
  refine (takes_expect hk (by decide)).cons ((takes_expect ho (by decide)).cons ?_)
  refine (takes_arguments hs h).bind ((takes_expect hc (by decide)).cons ?_) fun _ _ => hc
  by_cases hname : name.value = "Ref"
  · obtain ⟨s, hs⟩ := href hname
    rw [if_pos hname, hs]
    exact takes_pure _
  · rw [if_neg hname]
    exact takes_pure _

/-! ### Attribute access -/

/-- The tokens of attribute accesses to the right of an expression. -/
def TakesAccesses (base : Expr) (stop : Token → Prop) (ts : List Token) (e : Expr) : Prop :=
  ∀ bound, ts.length < bound → Takes (accesses base bound) stop ts e

theorem takesAccesses_nil (e : Expr) : TakesAccesses e (Stops 4) [] e := by
  intro bound hbound
  obtain ⟨bound, rfl⟩ := Nat.exists_eq_add_of_le' hbound
  have hstop (kind : TokenKind) (hkind : kind ∈ continuing 4) (t : Token) (ht : Stops 4 t) :
      t.kind ≠ kind := fun heq => ht (heq ▸ hkind)
  refine Takes.bind_nil (takes_at_false.weaken (hstop .dot (by decide))) ?_
  exact Takes.bind_nil (takes_at_false.weaken (hstop .lbracket (by decide))) (takes_pure e)

theorem TakesAccesses.dot {base base' : Expr} {dot attr : Token}
    (h : TakesAccesses base' stop ts e) (hd : dot.kind = .dot) (ha : attr.kind = .identifier)
    (hdotted : dotted base dot attr.value = pure base') :
    TakesAccesses base stop (dot :: attr :: ts) e := by
  intro bound hbound
  obtain ⟨bound, rfl⟩ := Nat.exists_eq_add_of_le' (Nat.one_le_of_lt hbound)
  refine takes_at_true.look ?_ fun _ _ => hd
  refine (takes_advance (by simp [hd])).cons ((takes_expect ha (by decide)).cons ?_)
  rw [hdotted, pure_bind]
  exact h bound (by simp only [List.length_cons] at hbound; omega)

private theorem takes_pathSegments {segments : List Token} (hk : ∀ t ∈ segments, t.kind = .string)
    (hs : Separated .comma (segments.map ([·])) ts) {bound : Nat}
    (hbound : segments.length ≤ bound) :
    Takes (pathSegments bound) (fun t => t.kind = .rbracket) ts (segments.map Token.value) := by
  generalize htss : segments.map ([·]) = tss at hs
  induction hs generalizing segments bound with
  | single ts =>
    obtain ⟨t, rfl, rfl⟩ := List.map_eq_singleton_iff.1 htss
    obtain ⟨bound, rfl⟩ := Nat.exists_eq_add_of_le' hbound
    have hkind : t.kind = .string := hk t (by simp)
    refine .current ?_
    rw [if_pos hkind]
    refine (takes_advance (by simp [hkind])).cons ?_
    refine Takes.bind_nil (takes_accept_false.weaken fun t ht => ?_) (takes_pure _)
    rw [ht]
    decide
  | @cons ts sign tss rest hsign _ ih =>
    obtain ⟨t, segments, rfl, rfl, rfl⟩ := List.map_eq_cons_iff.1 htss
    rw [List.forall_mem_cons] at hk
    obtain ⟨bound, rfl⟩ := Nat.exists_eq_add_of_le' (Nat.one_le_of_lt hbound)
    refine .current ?_
    rw [if_pos hk.1]
    refine (takes_advance (by simp [hk.1])).cons ((takes_accept_true hsign (by decide)).cons ?_)
    exact (ih hk.2 (Nat.le_of_succ_le_succ hbound) rfl).bind_pure

theorem TakesAccesses.bracket {base : Expr} {segments path : List Token} {opening closing : Token}
    (hk : ∀ t ∈ segments, t.kind = .string) (hs : Separated .comma (segments.map ([·])) path)
    (ho : opening.kind = .lbracket) (hc : closing.kind = .rbracket)
    (h : TakesAccesses (.bracket base (segments.map Token.value)) stop ts e) :
    TakesAccesses base stop (opening :: (path ++ closing :: ts)) e := by
  intro bound hbound
  obtain ⟨bound, rfl⟩ := Nat.exists_eq_add_of_le' (Nat.one_le_of_lt hbound)
  refine takes_at_false.look ?_ fun _ _ => by simp [ho]
  refine takes_at_true.look ?_ fun _ _ => ho
  unfold bracketPath
  simp only [bind_assoc, pure_bind]
  refine (takes_expect ho (by decide)).cons (.get fun s hlength => ?_)
  have hsegments : segments.length ≤ s.remaining := by
    have := length_le_of_separated hs
    rw [List.length_map] at this
    rw [List.length_append] at hlength
    omega
  refine (takes_pathSegments hk hs hsegments).bind ((takes_expect hc (by decide)).cons ?_)
    fun _ _ => hc
  refine h bound ?_
  simp only [List.length_cons, List.length_append] at hbound
  omega

/-- A path of attributes starts at most expressions. -/
theorem dotted_of_startsPath {base : Expr} (h : base.startsPath = true) (dot : Token)
    (attr : String) : dotted base dot attr = pure (.member base [attr]) := by
  cases base with
  | name x =>
    simp only [Expr.startsPath, Bool.and_eq_true, bne_iff_ne, Bool.not_eq_true'] at h
    simp [dotted, h.1, h.2]
  | member => cases h
  | _ => rfl

/-! ### Phrases -/

/-- The rule for a phrase, with a number of nesting levels left. -/
def phraseRule (limit levels : Nat) : Phrase → Reader Expr
  | .disjunction => disjunction (unaryAt limit levels)
  | .conjunction => conjunction (unaryAt limit levels)
  | .comparison => comparison (unaryAt limit levels)
  | .unary => unaryAt limit levels
  | .suffixed => suffixed (expressionAt limit levels)
  | .primary => primary (expressionAt limit levels)
  | .object => object (expressionAt limit levels)

/-- The tokens that may follow a phrase. -/
def phraseStop : Phrase → Token → Prop
  | .disjunction => Stops 1
  | .conjunction => Stops 2
  | .comparison => Stops 3
  | .unary | .suffixed => Stops 4
  | .primary => fun t => t.kind ≠ .lparen
  | .object => fun _ => True

/-- The rule for a phrase takes tokens. Attribute accesses may follow tokens that are taken for the
base of them. -/
def TakesPhrase (limit levels : Nat) : Phrase → List Token → Expr → Prop
  | .suffixed, ts, e => ∀ stop ts' e', (∀ next, stop next → (ts'.headD next).kind ≠ .lparen) →
      TakesAccesses e stop ts' e' →
      Takes (suffixed (expressionAt limit levels)) stop (ts ++ ts') e'
  | phrase, ts, e => Takes (phraseRule limit levels phrase) (phraseStop phrase) ts e

private theorem stops_succ {place : Nat} {kind : TokenKind} (hkind : kind ∈ continuing place)
    (t : Token) (h : Stops place t) : Stops (place + 1) t ∧ t.kind ≠ kind :=
  ⟨h.mono place.le_succ, fun heq => h (heq ▸ hkind)⟩

theorem TakesPhrase.suffixed (h : TakesPhrase limit levels .suffixed ts e) :
    Takes (suffixed (expressionAt limit levels)) (Stops 4) ts e := by
  have hstop (t : Token) (ht : Stops 4 t) : t.kind ≠ .lparen := fun heq =>
    ht (by rw [heq]; decide)
  have htakes := h (Stops 4) [] e hstop (takesAccesses_nil e)
  rwa [List.append_nil] at htakes

/-- An expression in brackets stands one level further in. -/
private theorem takesInside_of {inner : Nat} (hi : inner < levels)
    (h : DerivesIn inner .disjunction ts e)
    (ih : ∀ {levels}, inner ≤ levels → TakesPhrase limit levels .disjunction ts e) :
    TakesInside (expressionAt limit levels) ts e := by
  obtain ⟨levels, rfl⟩ := Nat.exists_eq_add_of_le' (Nat.one_le_of_lt hi)
  exact ⟨(ih (Nat.le_of_lt_succ hi)).within, h.startsIn⟩

/-- The rule for a phrase takes the tokens that it is derived from. -/
theorem takesPhrase_of_derivesIn {phrase : Phrase} {depth : Nat} (h : DerivesIn depth phrase ts e)
    (limit : Nat) {levels : Nat} (hle : depth ≤ levels) : TakesPhrase limit levels phrase ts e := by
  induction h generalizing levels with
  | disjunct _ ih => exact takes_joined_single (ih hle) (stops_succ (by decide))
  | disjunction hn hs _ ih =>
    exact takes_joined (by decide) hn hs (fun t ht => by rw [Stops, ht]; decide)
      (stops_succ (by decide)) fun p hp => ih p hp hle
  | conjunct _ ih => exact takes_joined_single (ih hle) (stops_succ (by decide))
  | conjunction hn hs _ ih =>
    exact takes_joined (by decide) hn hs (fun t ht => by rw [Stops, ht]; decide)
      (stops_succ (by decide)) fun p hp => ih p hp hle
  | side _ ih =>
    refine Takes.bind_nil (Takes.weaken (ih hle) fun t ht => ht.mono (by decide)) ?_
    refine Takes.bind_nil (takes_acceptAny_none.weaken fun t ht hmem => ht ?_) (takes_pure _)
    have hkinds : ∀ kind ∈ [TokenKind.doubleEquals, .notEquals], kind ∈ continuing 3 := by decide
    exact hkinds _ hmem
  | @equality _ _ _ left right sign _ hs _ ihl ihr =>
    have h := takes_comparison sign (by simp [hs]) (ihl hle) (ihr hle)
    rwa [if_pos hs] at h
  | @inequality _ _ _ left right sign _ hs _ ihl ihr =>
    have h := takes_comparison sign (by simp [hs]) (ihl hle) (ihr hle)
    rwa [if_neg (by simp [hs])] at h
  | negation hb hi _ ih =>
    obtain ⟨levels, rfl⟩ := Nat.exists_eq_add_of_le' (Nat.one_le_of_lt (hi.trans_le hle))
    have hinner := ih (Nat.le_of_lt_succ (hi.trans_le hle))
    exact (takes_accept_true hb (by decide)).cons (Takes.within hinner).bind_pure
  | operand h ih =>
    change Takes (unaryAt limit levels) _ _ _
    rw [unaryAt_eq]
    refine takes_accept_false.look (ih hle).suffixed fun next _ heq => ?_
    have := h.startsIn.kind_headD next
    rw [heq] at this
    exact absurd this (by decide)
  | plain _ ih =>
    intro stop ts' e' hstop ha
    exact (ih hle).bind (.get fun s hs => ha _ hs) hstop
  | pseudo _ hd ha ih =>
    intro stop ts' e' _ haccesses
    rw [List.append_assoc]
    exact ih hle stop _ e' (fun _ _ => by simp [hd]) (haccesses.dot hd ha rfl)
  | member _ hb hd ha ih =>
    intro stop ts' e' _ haccesses
    rw [List.append_assoc]
    exact ih hle stop _ e' (fun _ _ => by simp [hd])
      (haccesses.dot hd ha (dotted_of_startsPath hb _ _))
  | further _ hd ha ih =>
    intro stop ts' e' _ haccesses
    rw [List.append_assoc]
    exact ih hle stop _ e' (fun _ _ => by simp [hd]) (haccesses.dot hd ha rfl)
  | bracket _ ho hk hs hc ih =>
    intro stop ts' e' _ haccesses
    rw [List.append_assoc, List.cons_append, List.append_assoc]
    exact ih hle stop _ e' (fun _ _ => by simp [ho]) (haccesses.bracket hk hs ho hc)
  | string hk =>
    refine .current ?_
    rw [hk]
    exact (takes_advance (by simp [hk])).bind_pure
  | number hk _ hs =>
    refine .current ?_
    rw [hk]
    refine (takes_advance (by simp [hk])).cons ?_
    rw [hs]
    exact takes_pure _
  | word hk hs =>
    refine .current ?_
    rw [hk]
    unfold Reader.word
    rw [hs]
    exact (takes_advance (by simp [hk])).bind_pure
  | grouped ho hi h hc ih =>
    refine .current ?_
    rw [ho]
    refine (takes_advance (by simp [ho])).cons ?_
    exact (takesInside_of (hi.trans_le hle) h ih).takes.bind (takes_expect hc (by decide)).bind_pure
      fun _ _ => stops_of_mem (by simp [hc])
  | objectLiteral h ih =>
    obtain ⟨t, more, rfl, ht⟩ := h.startsIn
    refine .current ?_
    rw [List.mem_singleton.1 ht]
    exact Takes.weaken (ih hle) fun _ _ => trivial
  | array ho hs hi h hc ih =>
    refine .current ?_
    rw [ho]
    refine takes_array hs (fun p hp => ?_) ho hc
    exact takesInside_of ((hi (List.ne_nil_of_mem hp)).trans_le hle) (h p hp) (ih p hp)
  | call hk hn ho hs hi h hc href ih =>
    refine takes_primary_call hk hn ho hs (fun p hp => ?_) hc href
    exact takesInside_of ((hi (List.ne_nil_of_mem hp)).trans_le hle) (h p hp) (ih p hp)
  | name hk hn => exact takes_primary_name hk hn
  | object ho hs hf hi h hd hc ih =>
    refine (takes_fields hs hf (fun f hfield => ?_) hd ho hc).bind_pure
    exact takesInside_of ((hi (List.ne_nil_of_mem hfield)).trans_le hle) (h f hfield) (ih f hfield)

theorem takesInside_of_derivesIn {inner : Nat} (h : DerivesIn inner .disjunction ts e)
    (hi : inner < levels) (limit : Nat) : TakesInside (expressionAt limit levels) ts e :=
  takesInside_of hi h fun hle => takesPhrase_of_derivesIn h limit hle

end Reader

end StackScript
