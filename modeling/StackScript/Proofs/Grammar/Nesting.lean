import StackScript.Proofs.Grammar.Edges
import StackScript.Proofs.Grammar.Endures

/-!
# How deep words nest

Whether reading an expression nests too deep can be told from the words it consists of: brackets,
parentheses and negations take one level each. The words may spell an expression that is refused,
for instance because a key comes twice, and stand on any lines.

## Main definitions

* `Reader.Shallow`: the words of expressions that nest no deeper than a number of levels.

## Main results

* `Reader.Shallow.mono`, `Reader.Shallow.lower`: more levels, and other places.
* `Reader.Shallow.through`: such words are got through with as many levels left.
-/

namespace StackScript.Reader

variable {limit levels place other depth : Nat} {operand expr : Reader Expr} {ws : List Word}
  {wss : List (List Word)} {P Q K : List Token → Prop}

/-! ### Words by nesting -/

/-- The words of an attribute access. -/
inductive IsAccess : List Word → Prop
  | dot (attr : String) : IsAccess [.sign .dot, .ident attr]
  | bracket {path : List String} (hne : path ≠ []) :
      IsAccess (Word.enclosed .lbracket .rbracket (path.map fun s => [.str s]))

/-- The kind of a literal. -/
private theorem IsLiteral.kind_mem {w : Word} (h : IsLiteral w) :
    w.kind ∈ [.string, .number, .identifier] := by
  rcases h with h | ⟨h, -⟩
  · revert h
    cases w.kind <;> decide
  · rw [h]
    decide

/-- The words of an expression in a place that nests no deeper than a number of levels. -/
inductive Shallow : (levels place : Nat) → List Word → Prop
  | literal {levels place : Nat} {w : Word} (h : IsLiteral w) : Shallow levels place [w]
  | name {levels place : Nat} {x : String} {accesses : List (List Word)} (hx : IsName x)
      (ha : ∀ ws ∈ accesses, IsAccess ws) : Shallow levels place (.ident x :: accesses.flatten)
  | array {levels place : Nat} {wss : List (List Word)} (h : ∀ ws ∈ wss, Shallow levels 1 ws) :
      Shallow (levels + 1) place (Word.enclosed .lbracket .rbracket wss)
  | object {levels place : Nat} {fields : List (Word × List Word)}
      (hk : ∀ field ∈ fields, field.1.kind ∈ [.identifier, .string])
      (h : ∀ field ∈ fields, Shallow levels 1 field.2) :
      Shallow (levels + 1) place (Word.enclosed .lbrace .rbrace (fields.map Word.property))
  | call {levels place : Nat} {x : String} {wss : List (List Word)} (hx : IsName x)
      (h : ∀ ws ∈ wss, Shallow levels 1 ws) :
      Shallow (levels + 1) place (.ident x :: Word.enclosed .lparen .rparen wss)
  | grouped {levels place : Nat} {ws : List Word} (h : Shallow levels 1 ws) :
      Shallow (levels + 1) place (.sign .lparen :: (ws ++ [.sign .rparen]))
  | negation {levels place : Nat} {ws : List Word} (hp : place ≤ 4) (h : Shallow levels 4 ws) :
      Shallow (levels + 1) place (.sign .bang :: ws)
  | comparison {levels place : Nat} {kind : TokenKind} {ws ws' : List Word} (hp : place ≤ 3)
      (hk : kind ∈ [.doubleEquals, .notEquals]) (hl : Shallow levels 4 ws)
      (hr : Shallow levels 4 ws') : Shallow levels place (ws ++ .sign kind :: ws')
  | conjunction {levels place : Nat} {wss : List (List Word)} (hp : place ≤ 2) (hne : wss ≠ [])
      (h : ∀ ws ∈ wss, Shallow levels 3 ws) :
      Shallow levels place (Word.joined (.sign .doubleAmpersand) wss)
  | disjunction {levels place : Nat} {wss : List (List Word)} (hp : place ≤ 1) (hne : wss ≠ [])
      (h : ∀ ws ∈ wss, Shallow levels 2 ws) :
      Shallow levels place (Word.joined (.sign .doublePipe) wss)

namespace Shallow

/-- More levels do no harm. -/
theorem mono {more : Nat} (h : Shallow levels place ws) (hle : levels ≤ more) :
    Shallow more place ws := by
  induction h generalizing more with
  | literal h => exact .literal h
  | name hx ha => exact .name hx ha
  | comparison hp hk _ _ ihl ihr => exact .comparison hp hk (ihl hle) (ihr hle)
  | conjunction hp hne _ ih => exact .conjunction hp hne fun ws hws => ih ws hws hle
  | disjunction hp hne _ ih => exact .disjunction hp hne fun ws hws => ih ws hws hle
  | array _ ih =>
    obtain ⟨more, rfl⟩ := Nat.exists_eq_add_of_le' (Nat.one_le_of_lt hle)
    exact .array fun ws hws => ih ws hws (Nat.le_of_succ_le_succ hle)
  | object hk _ ih =>
    obtain ⟨more, rfl⟩ := Nat.exists_eq_add_of_le' (Nat.one_le_of_lt hle)
    exact .object hk fun field hf => ih field hf (Nat.le_of_succ_le_succ hle)
  | call hx _ ih =>
    obtain ⟨more, rfl⟩ := Nat.exists_eq_add_of_le' (Nat.one_le_of_lt hle)
    exact .call hx fun ws hws => ih ws hws (Nat.le_of_succ_le_succ hle)
  | grouped _ ih =>
    obtain ⟨more, rfl⟩ := Nat.exists_eq_add_of_le' (Nat.one_le_of_lt hle)
    exact .grouped (ih (Nat.le_of_succ_le_succ hle))
  | negation hp _ ih =>
    obtain ⟨more, rfl⟩ := Nat.exists_eq_add_of_le' (Nat.one_le_of_lt hle)
    exact .negation hp (ih (Nat.le_of_succ_le_succ hle))

/-- A place that asks for less does no harm. -/
theorem lower (h : Shallow levels place ws) (hle : other ≤ place) : Shallow levels other ws := by
  cases h with
  | literal h => exact .literal h
  | name hx ha => exact .name hx ha
  | array h => exact .array h
  | object hk h => exact .object hk h
  | call hx h => exact .call hx h
  | grouped h => exact .grouped h
  | negation hp h => exact .negation (hle.trans hp) h
  | comparison hp hk hl hr => exact .comparison (hle.trans hp) hk hl hr
  | conjunction hp hne h => exact .conjunction (hle.trans hp) hne h
  | disjunction hp hne h => exact .disjunction (hle.trans hp) hne h

private theorem starts_joined {separator : Word} (hne : wss ≠ []) (h : ∀ ws ∈ wss, Starts ws) :
    Starts (Word.joined separator wss) := by
  obtain ⟨ws, wss, rfl⟩ := List.exists_cons_of_ne_nil hne
  exact (h ws (by simp)).append _

theorem starts (h : Shallow levels place ws) : Starts ws := by
  induction h with
  | @literal _ _ w h =>
    refine ⟨w, [], rfl, ?_⟩
    have hkind := h.kind_mem
    revert hkind
    cases w.kind <;> decide
  | name | call => exact ⟨_, _, rfl, by simp [startKinds]⟩
  | array | object | grouped | negation => exact ⟨_, _, rfl, by simp [startKinds]⟩
  | comparison _ _ _ _ ihl => exact ihl.append _
  | conjunction _ hne _ ih => exact starts_joined hne ih
  | disjunction _ hne _ ih => exact starts_joined hne ih

end Shallow

/-! ### Operators -/

theorem endures_operands {sign : TokenKind} {stop : Token → Prop} (hsign : sign ≠ .eof)
    (hstop : ∀ t : Token, t.kind = sign → stop t)
    (hK : ∀ t, Leads K t → stop t ∧ t.kind ≠ sign) (h : ∀ ws ∈ wss, Through operand stop ws)
    {bound : Nat} (hbound : wss.length ≤ bound) :
    Endures depth (Ahead (wss.flatMap (Word.sign sign :: ·)) K) (operands sign operand bound)
      K := by
  induction wss generalizing bound with
  | nil =>
    cases bound with
    | zero => exact .pure []
    | succ bound => exact .accept_false (fun t ht => (hK t ht).2) (.pure [])
  | cons ws wss ih =>
    obtain ⟨bound, rfl⟩ := Nat.exists_eq_add_of_le' (Nat.one_le_of_lt hbound)
    rw [List.forall_mem_cons] at h
    rw [List.flatMap_cons, List.cons_append]
    refine .accept_true rfl hsign ?_
    rw [ahead_append]
    refine (h.1 depth _ fun t ht => ?_).bind fun _ =>
      (ih h.2 (Nat.le_of_succ_le_succ hbound)).bind_pure
    cases wss with
    | nil => exact (hK t ht).1
    | cons ws wss => exact hstop t ht.kind

/-- Operands with a sign between them, which continues an expression in their place only. -/
private theorem through_joined {sign : TokenKind} {function : String} {operator : Operator}
    (hsign : sign ∈ continuing place) (hsign' : sign ∉ continuing (place + 1)) (heof : sign ≠ .eof)
    (hne : wss ≠ []) (h : ∀ ws ∈ wss, Through operand (Stops (place + 1)) ws) :
    Through (joined sign function operator operand) (Stops place)
      (Word.joined (.sign sign) wss) := by
  intro depth K hK
  have hstop (t : Token) (ht : t.kind = sign) : Stops (place + 1) t := by rwa [Stops, ht]
  have hK' (t : Token) (ht : Leads K t) : Stops (place + 1) t ∧ t.kind ≠ sign :=
    ⟨(hK t ht).mono place.le_succ, fun heq => hK t ht (heq ▸ hsign)⟩
  obtain ⟨ws, wss, rfl⟩ := List.exists_cons_of_ne_nil hne
  rw [List.forall_mem_cons] at h
  rw [Word.joined, ahead_append]
  refine (h.1 depth _ fun t ht => ?_).bind fun _ => .get fun s hs => ?_
  · cases wss with
    | nil => exact (hK' t ht).1
    | cons ws wss => exact hstop t ht.kind
  · have hbound : wss.length ≤ s.remaining := (length_le_flatMap _ wss).trans hs.le
    refine (endures_operands heof hstop hK' h.2 hbound).bind fun others => ?_
    split <;> exact .pure _

private theorem endures_joined_single {sign : TokenKind} {function : String} {operator : Operator}
    (h : Endures depth P operand Q) (hQ : ∀ t, Leads Q t → t.kind ≠ sign) :
    Endures depth P (joined sign function operator operand) Q := by
  refine h.bind fun _ => .get_any fun s => ?_
  have hnil : Endures depth Q (operands sign operand s.remaining) Q := by
    cases s.remaining with
    | zero => exact .pure []
    | succ bound => exact .accept_false hQ (.pure [])
  refine hnil.bind fun others => ?_
  split <;> exact .pure _

private theorem through_comparison {ws' : List Word} {kind : TokenKind}
    (hk : kind ∈ [.doubleEquals, .notEquals]) (hl : Through operand (Stops 4) ws)
    (hr : Through operand (Stops 4) ws') :
    Through (comparison operand) (Stops 3) (ws ++ Word.sign kind :: ws') := by
  intro depth K hK
  have hkinds : ∀ kind ∈ [TokenKind.doubleEquals, .notEquals],
      kind ≠ .eof ∧ kind ∉ continuing 4 := by decide
  rw [ahead_append]
  refine (hl depth _ fun t ht => ?_).bind fun _ =>
    .acceptAny_some hk (hkinds kind hk).1 fun sign => ?_
  · rw [Stops, ht.kind]
    exact (hkinds kind hk).2
  · refine (hr depth K fun t ht => (hK t ht).mono (by omega)).bind fun _ => .atAny fun b => ?_
    split
    · exact .fail rfl
    · split <;> exact .pure _

/-! ### Places -/

private theorem endures_ruleAt_succ (h : Endures depth P (ruleAt limit levels (place + 1)) Q)
    (hQ : ∀ t, Leads Q t → Stops place t) : Endures depth P (ruleAt limit levels place) Q := by
  have hcontinue (kind : TokenKind) (hkind : kind ∈ continuing place) :
      ∀ t, Leads Q t → t.kind ≠ kind := fun t ht heq => hQ t ht (heq ▸ hkind)
  rcases place with _ | _ | _ | _ | place
  · exact h
  · exact endures_joined_single h (hcontinue .doublePipe (by decide))
  · exact endures_joined_single h (hcontinue .doubleAmpersand (by decide))
  · refine h.bind fun _ => .acceptAny_none (fun t ht hmem => ?_) (.pure _)
    have hall : ∀ kind ∈ [TokenKind.doubleEquals, .notEquals], kind ∈ continuing 3 := by decide
    exact hQ t ht (hall _ hmem)
  · exact h

/-- What the rule for a place gets through, so does the rule for a place that asks for less. -/
theorem endures_ruleAt_of_le (h : Endures depth P (ruleAt limit levels other) Q)
    (hle : place ≤ other) (hQ : ∀ t, Leads Q t → Stops place t) :
    Endures depth P (ruleAt limit levels place) Q := by
  induction hle with
  | refl => exact h
  | step hle ih => exact ih (endures_ruleAt_succ h fun t ht => (hQ t ht).mono hle)

private theorem Through.lower (h : Through (ruleAt limit levels other) (Stops other) ws)
    (hle : place ≤ other) : Through (ruleAt limit levels place) (Stops place) ws :=
  fun depth K hK => endures_ruleAt_of_le (h depth K fun t ht => (hK t ht).mono hle) hle hK

/-- The rule for an expression one level further in. -/
theorem Through.inside (h : Through (ruleAt limit levels 1) (Stops 1) ws) :
    Through (expressionAt limit (levels + 1)) (Stops 1) ws :=
  fun depth K hK => (h (depth + 1) K hK).within

private theorem through_negation (h : Through (ruleAt limit levels 4) (Stops 4) ws) :
    Through (ruleAt limit (levels + 1) 4) (Stops 4) (.sign .bang :: ws) :=
  fun depth K hK => .accept_true rfl (by decide) (h (depth + 1) K hK).within.bind_pure

/-! ### Attribute access -/

private theorem endures_dotted (base : Expr) (dot : Token) (attr : String) :
    Endures depth P (dotted base dot attr) P := by
  unfold dotted
  split
  · split_ifs
    · exact .pure _
    · exact .failAt rfl
    · exact .pure _
  · exact .pure _
  · exact .pure _

private theorem endures_pathSegments {path : List String} (hne : path ≠ [])
    (hK : ∀ t, Leads K t → t.kind ≠ .comma) {bound : Nat} (hbound : path.length ≤ bound) :
    Endures depth (Ahead (Word.joined (.sign .comma) (path.map fun s => [Word.str s])) K)
      (pathSegments bound) K := by
  induction path generalizing bound with
  | nil => exact absurd rfl hne
  | cons s path ih =>
    obtain ⟨bound, rfl⟩ := Nat.exists_eq_add_of_le' (Nat.one_le_of_lt hbound)
    refine .current fun t ht => ?_
    rw [if_pos (show t.kind = .string from ht.kind)]
    refine .advance (by simp) fun _ _ => ?_
    cases path with
    | nil => exact .accept_false hK (.pure _)
    | cons s' path =>
      exact .accept_true rfl (by decide) (ih (by simp) (Nat.le_of_succ_le_succ hbound)).bind_pure

private theorem endures_bracketPath {path : List String} (hne : path ≠ []) :
    Endures depth (Ahead (Word.enclosed .lbracket .rbracket (path.map fun s => [.str s])) K)
      bracketPath K := by
  refine .expect (by decide) fun _ _ _ => .get fun s hs => ?_
  have hbound : path.length ≤ s.remaining := by
    have := length_lt_of_joined (by simp) hs
    rw [List.length_map] at this
    exact this.le
  rw [ahead_append]
  refine (endures_pathSegments hne (fun t ht => ?_) hbound).bind fun _ =>
    .expect (by decide) fun _ _ _ => .pure _
  rw [ht.kind]
  decide

private theorem endures_accesses (base : Expr) (h : ∀ ws ∈ wss, IsAccess ws)
    (hK : ∀ t, Leads K t → Stops 4 t) {bound : Nat} (hbound : wss.length ≤ bound) :
    Endures depth (Ahead wss.flatten K) (accesses base bound) K := by
  have hcontinue (kind : TokenKind) (hkind : kind ∈ continuing 4) :
      ∀ t, Leads K t → t.kind ≠ kind := fun t ht heq => hK t ht (heq ▸ hkind)
  induction wss generalizing base bound with
  | nil =>
    cases bound with
    | zero => exact .pure base
    | succ bound =>
      exact .at_false (hcontinue .dot (by decide))
        (.at_false (hcontinue .lbracket (by decide)) (.pure base))
  | cons ws wss ih =>
    obtain ⟨bound, rfl⟩ := Nat.exists_eq_add_of_le' (Nat.one_le_of_lt hbound)
    rw [List.forall_mem_cons] at h
    have hmore (base : Expr) := ih base h.2 (Nat.le_of_succ_le_succ hbound)
    rw [List.flatten_cons]
    cases h.1 with
    | dot attr =>
      refine .at_true (fun t ht => ht.kind) (.advance (by decide) fun dot _ => ?_)
      refine .expect (by decide) fun attr _ _ => ?_
      exact (endures_dotted base dot attr.value).bind hmore
    | bracket hne =>
      rw [ahead_append]
      refine .at_false (fun t ht => by rw [ht.kind]; decide) (.at_true (fun t ht => ht.kind) ?_)
      exact (endures_bracketPath hne).bind fun path => hmore (.bracket base path)

/-- A primary expression with attribute accesses to the right of it. -/
private theorem endures_ruleAt_of_primary
    (h : Endures depth P (primary (expressionAt limit levels)) (Ahead wss.flatten K))
    (ha : ∀ ws ∈ wss, IsAccess ws) (hP : ∀ t, Leads P t → t.kind ≠ .bang)
    (hK : ∀ t, Leads K t → Stops 4 t) : Endures depth P (ruleAt limit levels 4) K := by
  change Endures depth P (unaryAt limit levels) K
  rw [unaryAt_eq]
  refine .accept_false hP (h.bind fun base => .get fun s hs => endures_accesses base ha hK ?_)
  have hlength : wss.length ≤ wss.flatten.length := by
    clear h hs
    induction wss with
    | nil => simp
    | cons ws wss ih =>
      rw [List.forall_mem_cons] at ha
      have hpos : 0 < ws.length := by
        cases ha.1 with
        | dot => simp
        | bracket => simp [Word.enclosed]
      have := ih ha.2
      rw [List.flatten_cons, List.length_append, List.length_cons]
      omega
  omega

/-- A primary expression without attribute accesses. -/
theorem endures_ruleAt_primary (h : Endures depth P (primary (expressionAt limit levels)) K)
    (hP : ∀ t, Leads P t → t.kind ≠ .bang) (hK : ∀ t, Leads K t → Stops 4 t) :
    Endures depth P (ruleAt limit levels 4) K :=
  @endures_ruleAt_of_primary _ _ _ [] _ _ h (by simp) hP hK

/-! ### Primary expressions -/

private theorem endures_primary_literal {w : Word} (h : IsLiteral w) :
    Endures depth (Ahead [w] K) (primary expr) K := by
  refine .current fun t ht => ?_
  have hpass {f : Token → Reader Expr} (hw : w.kind ≠ .eof) (hf : ∀ t, Endures depth K (f t) K) :
      Endures depth (Ahead [w] K) (advance >>= f) K := .advance hw fun t _ => hf t
  simp only [IsLiteral, List.mem_cons, List.not_mem_nil, or_false] at h
  obtain (hkind | hkind) | ⟨hkind, hvalue⟩ := h
  · rw [ht.kind, hkind]
    exact hpass (by rw [hkind]; decide) fun _ => .pure _
  · rw [ht.kind, hkind]
    refine hpass (by rw [hkind]; decide) fun _ => ?_
    split
    · exact .pure _
    · exact .throw rfl
  · rw [ht.kind, hkind]
    obtain ⟨s, hs⟩ := Option.isSome_iff_exists.1 hvalue
    unfold word
    rw [show t.value = w.value from congrArg Word.value ht.word, hs]
    exact hpass (by rw [hkind]; decide) fun _ => .pure _

/-- An expression that starts with an identifier. -/
theorem endures_primary_ident {x : String}
    (h : ∀ t : Token, t.value = x → Endures depth (Ahead (.ident x :: ws) K) (word expr t) Q) :
    Endures depth (Ahead (.ident x :: ws) K) (primary expr) Q := by
  refine .current fun t ht => ?_
  rw [show t.kind = .identifier from ht.kind]
  exact h t (congrArg Word.value ht.word)

private theorem endures_primary_name {x : String} (hx : IsName x)
    (hK : ∀ t, Leads K t → t.kind ≠ .lparen) :
    Endures depth (Ahead [.ident x] K) (primary expr) K := by
  refine endures_primary_ident fun t ht => ?_
  unfold word
  simp only [ht, hx.literal, hx.resource, hx.condition, hx.body, if_false]
  refine .peek fun next hnext => ?_
  rw [if_neg (hK next hnext)]
  exact .advance (by simp) fun _ _ => .pure _

/-- A rule gets through the words of an expression inside brackets. -/
def Inner (expr : Reader Expr) (ws : List Word) : Prop :=
  Through expr (Stops 1) ws ∧ Starts ws

theorem Inner.kind_ne (h : Inner expr ws) {kind : TokenKind} (hkind : kind ∉ startKinds)
    {ws' : List Word} {t : Token} (ht : Leads (Ahead (ws ++ ws') K) t) : t.kind ≠ kind := by
  obtain ⟨w, more, rfl, hw⟩ := h.2
  rw [ht.kind]
  exact fun heq => hkind (heq ▸ hw)

private theorem ne_nil_of_inner (h : ∀ ws ∈ wss, Inner expr ws) : ∀ ws ∈ wss, ws ≠ [] :=
  fun ws hws => (h ws hws).2.ne_nil

private theorem endures_checkRef (token : Token) (args : List Expr) :
    Endures depth P (checkRef token args) P := by
  unfold checkRef
  split
  · exact .failAt rfl
  · split_ifs
    · exact .pure _
    · exact .failAt rfl
  · exact .failAt rfl

private theorem endures_arguments (h : ∀ ws ∈ wss, Inner expr ws)
    (hK : ∀ t, Leads K t → t.kind = .rparen) :
    Endures depth (Ahead (Word.joined (.sign .comma) wss) K) (arguments expr) K := by
  cases wss with
  | nil => exact .at_true hK (.pure [])
  | cons ws wss =>
    rw [List.forall_mem_cons] at h
    refine .at_false (fun t ht => h.1.kind_ne (by decide) ht) ?_
    have hstop (t : Token) (ht : t.kind ∈ [.comma, .rparen]) : Stops 1 t :=
      stops_of_mem (by revert ht; cases t.kind <;> decide)
    rw [Word.joined, ahead_append]
    refine (h.1.1 depth _ fun t ht => hstop t ?_).bind fun _ => .get fun s hs => ?_
    · cases wss with
      | nil => simp [hK t ht]
      | cons ws wss => simp [ht.kind]
    · rw [moreArguments_eq]
      refine (endures_operands (by decide) (fun t ht => hstop t (by simp [ht])) (fun t ht => ?_)
        (fun ws hws => (h.2 ws hws).1) ((length_le_flatMap _ wss).trans hs.le)).bind_pure
      exact ⟨hstop t (by simp [hK t ht]), by rw [hK t ht]; decide⟩

private theorem endures_primary_call {x : String} (hx : IsName x)
    (h : ∀ ws ∈ wss, Inner expr ws) :
    Endures depth (Ahead (.ident x :: Word.enclosed .lparen .rparen wss) K) (primary expr) K := by
  refine endures_primary_ident fun t ht => ?_
  unfold word
  simp only [ht, hx.literal, hx.resource, hx.condition, hx.body, if_false]
  refine .peek fun t ht => ?_
  rw [if_pos (show t.kind = .lparen from ht.kind)]
  refine .expect (by decide) fun name _ _ => .expect (by decide) fun _ _ _ => ?_
  rw [ahead_append]
  refine (endures_arguments h fun t ht => ht.kind).bind fun args => ?_
  refine .expect (by decide) fun _ _ _ => ?_
  split_ifs
  · exact (endures_checkRef name args).bind_pure
  · exact .pure _

private theorem endures_arrayItems (h : ∀ ws ∈ wss, Inner expr ws)
    (hK : ∀ t, Leads K t → t.kind = .rbracket) {bound : Nat} (hbound : wss.length < bound) :
    Endures depth (Ahead (Word.joined (.sign .comma) wss) K) (arrayItems expr bound) K := by
  induction wss generalizing bound with
  | nil =>
    obtain ⟨bound, rfl⟩ := Nat.exists_eq_add_of_le' hbound
    exact .at_true hK (.pure [])
  | cons ws wss ih =>
    obtain ⟨bound, rfl⟩ := Nat.exists_eq_add_of_le' (Nat.one_le_of_lt hbound)
    rw [List.forall_mem_cons] at h
    refine .at_false (fun t ht => h.1.kind_ne (by decide) ht) ?_
    rw [Word.joined, ahead_append]
    cases wss with
    | nil =>
      refine (h.1.1 depth _ fun t ht => stops_of_mem ?_).bind fun _ =>
        .accept_false (fun t ht => ?_) (.pure _)
      · rw [hK t ht]
        decide
      · rw [hK t ht]
        decide
    | cons ws' wss =>
      refine (h.1.1 depth _ fun t ht => stops_of_mem ?_).bind fun _ =>
        .accept_true rfl (by decide) (ih h.2 (Nat.lt_of_succ_lt_succ hbound)).bind_pure
      rw [ht.kind]
      decide

private theorem endures_primary_array (h : ∀ ws ∈ wss, Inner expr ws) :
    Endures depth (Ahead (Word.enclosed .lbracket .rbracket wss) K) (primary expr) K := by
  refine .current fun t ht => ?_
  rw [show t.kind = .lbracket from ht.kind]
  refine .expect (by decide) fun _ _ _ => .get fun s hs => ?_
  have hbound := length_lt_of_joined (ne_nil_of_inner h) hs
  rw [ahead_append]
  exact (endures_arrayItems h (fun t ht => ht.kind) hbound).bind fun _ =>
    .expect (by decide) fun _ _ _ => .pure _

private theorem endures_objectFields {fields : List (Word × List Word)}
    (hk : ∀ field ∈ fields, field.1.kind ∈ [.identifier, .string])
    (h : ∀ field ∈ fields, Inner expr field.2) (hK : ∀ t, Leads K t → t.kind = .rbrace)
    (seen : List String) {bound : Nat} (hbound : fields.length < bound) :
    Endures depth (Ahead (Word.joined (.sign .comma) (fields.map Word.property)) K)
      (objectFields expr seen bound) K := by
  induction fields generalizing seen bound with
  | nil =>
    obtain ⟨bound, rfl⟩ := Nat.exists_eq_add_of_le' hbound
    exact .at_true hK (.pure [])
  | cons field fields ih =>
    obtain ⟨bound, rfl⟩ := Nat.exists_eq_add_of_le' (Nat.one_le_of_lt hbound)
    rw [List.forall_mem_cons] at hk h
    have hkinds : ∀ kind ∈ [TokenKind.identifier, .string], kind ≠ .rbrace ∧ kind ≠ .eof ∧
        (!([.identifier, .string, .number].contains kind)) = false := by decide
    obtain ⟨hbrace, heof, hallowed⟩ := hkinds _ hk.1
    rw [List.map_cons, Word.joined, Word.property, List.cons_append, List.cons_append]
    refine .at_false (fun t ht => by rw [ht.kind]; exact hbrace) (.current fun key hkey => ?_)
    rw [hkey.kind, hallowed, if_neg Bool.false_ne_true]
    refine .advance heof fun _ _ => ?_
    split_ifs
    · exact .failAt rfl
    refine .expect (by decide) fun _ _ _ => ?_
    rw [ahead_append]
    cases fields with
    | nil =>
      refine (h.1.1 depth _ fun t ht => stops_of_mem ?_).bind fun _ =>
        .accept_false (fun t ht => ?_) (.pure _)
      · rw [hK t ht]
        decide
      · rw [hK t ht]
        decide
    | cons field' fields =>
      refine (h.1.1 depth _ fun t ht => stops_of_mem ?_).bind fun _ =>
        .accept_true rfl (by decide) (ih hk.2 h.2 _ (Nat.lt_of_succ_lt_succ hbound)).bind_pure
      rw [ht.kind]
      decide

/-- The properties of an object with its braces. -/
theorem endures_fields {fields : List (Word × List Word)}
    (hk : ∀ field ∈ fields, field.1.kind ∈ [.identifier, .string])
    (h : ∀ field ∈ fields, Inner expr field.2) :
    Endures depth (Ahead (Word.enclosed .lbrace .rbrace (fields.map Word.property)) K)
      (Reader.fields expr) K := by
  refine .expect (by decide) fun _ _ _ => .get fun s hs => ?_
  have hbound := length_lt_of_joined (List.forall_mem_map.2 fun _ _ => by simp [Word.property]) hs
  rw [List.length_map] at hbound
  rw [ahead_append]
  exact (endures_objectFields hk h (fun t ht => ht.kind) [] hbound).bind fun _ =>
    .expect (by decide) fun _ _ _ => .pure _

private theorem endures_primary_object {fields : List (Word × List Word)}
    (hk : ∀ field ∈ fields, field.1.kind ∈ [.identifier, .string])
    (h : ∀ field ∈ fields, Inner expr field.2) :
    Endures depth (Ahead (Word.enclosed .lbrace .rbrace (fields.map Word.property)) K)
      (primary expr) K := by
  refine .current fun t ht => ?_
  rw [show t.kind = .lbrace from ht.kind]
  exact (endures_fields hk h).bind_pure

private theorem endures_primary_grouped (h : Inner expr ws) :
    Endures depth (Ahead (.sign .lparen :: (ws ++ [.sign .rparen])) K) (primary expr) K := by
  refine .current fun t ht => ?_
  rw [show t.kind = .lparen from ht.kind]
  refine .advance (by decide) fun _ _ => ?_
  rw [ahead_append]
  refine (h.1 depth _ fun t ht => stops_of_mem ?_).bind fun _ =>
    .expect (by decide) fun _ _ _ => .pure _
  rw [ht.kind]
  decide

/-! ### Expressions -/

private theorem through_of_primary {w : Word}
    (h : ∀ depth K, Endures depth (Ahead (w :: ws) K) (primary (expressionAt limit levels)) K)
    (hbang : w.kind ≠ .bang) (hplace : place ≤ 4) :
    Through (ruleAt limit levels place) (Stops place) (w :: ws) := by
  have hfour : Through (ruleAt limit levels 4) (Stops 4) (w :: ws) := fun depth K hK =>
    endures_ruleAt_primary (h depth K) (fun t ht => by rw [ht.kind]; exact hbang) hK
  exact hfour.lower hplace

private theorem through_name {x : String} (hx : IsName x) (ha : ∀ ws ∈ wss, IsAccess ws) :
    Through (ruleAt limit levels 4) (Stops 4) (.ident x :: wss.flatten) := by
  intro depth K hK
  refine endures_ruleAt_of_primary (endures_primary_name hx fun t ht => ?_) ha
    (fun t ht => by simp [ht.kind]) hK
  cases wss with
  | nil => exact fun hk => hK t ht (hk ▸ by decide)
  | cons ws wss =>
    rw [List.forall_mem_cons] at ha
    rw [List.flatten_cons] at ht
    cases ha.1 with
    | dot => rw [ht.kind]; decide
    | bracket => rw [ht.kind]; decide

/-- **Words are got through within the levels that they nest to.** -/
theorem Shallow.through (h : Shallow levels place ws) (limit : Nat) (hplace : place ≤ 4) :
    Through (ruleAt limit levels place) (Stops place) ws := by
  have inner_of {levels : Nat} {ws : List Word} (h : Shallow levels 1 ws)
      (ht : Through (ruleAt limit levels 1) (Stops 1) ws) :
      Inner (expressionAt limit (levels + 1)) ws := ⟨ht.inside, h.starts⟩
  induction h with
  | @literal _ _ w h =>
    refine through_of_primary (fun _ _ => endures_primary_literal h) (fun hbang => ?_) hplace
    exact absurd (hbang ▸ h.kind_mem) (by decide)
  | name hx ha => exact (through_name hx ha).lower hplace
  | array h ih =>
    exact through_of_primary (fun _ _ => endures_primary_array fun ws hws =>
      inner_of (h ws hws) (ih ws hws (by decide))) (by decide) hplace
  | object hk h ih =>
    exact through_of_primary (fun _ _ => endures_primary_object hk fun field hf =>
      inner_of (h field hf) (ih field hf (by decide))) (by decide) hplace
  | call hx h ih =>
    exact through_of_primary (fun _ _ => endures_primary_call hx fun ws hws =>
      inner_of (h ws hws) (ih ws hws (by decide))) (by simp) hplace
  | grouped h ih =>
    exact through_of_primary (fun _ _ => endures_primary_grouped (inner_of h (ih (by decide))))
      (by decide) hplace
  | negation hp _ ih => exact (through_negation (ih le_rfl)).lower hp
  | @comparison levels _ kind ws ws' hp hk _ _ ihl ihr =>
    have hthree : Through (ruleAt limit levels 3) (Stops 3) (ws ++ .sign kind :: ws') :=
      through_comparison hk (ihl le_rfl) (ihr le_rfl)
    exact hthree.lower hp
  | @conjunction levels _ wss hp hne _ ih =>
    have htwo : Through (ruleAt limit levels 2) (Stops 2) (Word.joined _ wss) :=
      through_joined (by decide) (by decide) (by decide) hne fun ws hws => ih ws hws (by decide)
    exact htwo.lower hp
  | @disjunction levels _ wss hp hne _ ih =>
    have hone : Through (ruleAt limit levels 1) (Stops 1) (Word.joined _ wss) :=
      through_joined (by decide) (by decide) (by decide) hne fun ws hws => ih ws hws (by decide)
    exact hone.lower hp

/-- The words of an expression are got through one level further in. -/
theorem Shallow.inner (h : Shallow levels 1 ws) (limit : Nat) :
    Inner (expressionAt limit (levels + 1)) ws :=
  ⟨(h.through limit (by decide)).inside, h.starts⟩

end StackScript.Reader
