import StackScript.Proofs.Grammar.Nesting

/-!
# Scripts that do not nest too deep

A script is got through if the values in its statements nest no deeper than two levels less than the
limit: a statement takes one level, and the object, the modifier or the condition in it another one.
As lines do not matter here, the modifiers of a resource may be left over when the resource has been
read. They are then taken for statements, and refused or read as headers.

## Main definitions

* `Reader.ShallowDeclaration`, `Reader.ShallowStatement`: the words of declarations and statements
  whose values nest no deeper than a number of levels.
* `Reader.ShallowScript`: the tokens of scripts of such statements.

## Main results

* `isTooDeep_eq_false_of_parseScript`: such scripts are not refused for their nesting.
-/

namespace StackScript

namespace Reader

variable {limit levels depth : Nat} {expr : Reader Expr} {ws : List Word}
  {P Q K : List Token → Prop}

/-! ### Words of statements -/

/-- The words of the type of a resource. -/
inductive IsType : List Word → Prop
  | string (s : String) : IsType [.str s]
  | segments {names : List String} (hne : names ≠ []) :
      IsType (Word.joined (.sign .doubleColon) (names.map fun x => [.ident x]))

/-- The keys and the words of properties whose values nest no deeper than a number of levels. -/
structure ShallowFields (levels : Nat) (fields : List (Word × List Word)) : Prop where
  keys : ∀ field ∈ fields, field.1.kind ∈ [.identifier, .string]
  values : ∀ field ∈ fields, Shallow levels 1 field.2

/-- The words of an object with given properties. -/
def objectWords (fields : List (Word × List Word)) : List Word :=
  Word.enclosed .lbrace .rbrace (fields.map Word.property)

/-- A modifier whose value nests no deeper than a number of levels. -/
def ShallowModifier (levels : Nat) (m : String × List Word) : Prop :=
  m.1 ∈ modifierNames ∧ Shallow levels 1 m.2

/-- The words of a declaration whose values nest no deeper than a number of levels. -/
inductive ShallowDeclaration (levels : Nat) : List Word → Prop
  | resource {type : List Word} {properties : Option (List (Word × List Word))}
      {modifiers : List (String × List Word)} (ht : IsType type)
      (hp : ∀ fields ∈ properties, ShallowFields levels fields)
      (hm : ∀ m ∈ modifiers, ShallowModifier levels m) :
      ShallowDeclaration levels (.ident "Resource" :: (type ++
        ((properties.map objectWords).getD [] ++ modifiers.flatMap Word.modifier)))
  | body (kind : BodyKind) {fields : List (Word × List Word)} (h : ShallowFields levels fields) :
      ShallowDeclaration levels (.ident kind.keyword :: objectWords fields)
  | condition {ws : List Word} (h : Shallow levels 1 ws) :
      ShallowDeclaration levels (.ident "Condition" :: ws)

/-- The words of a statement whose values nest no deeper than a number of levels. A header has no
value in parentheses, as it could be taken for a modifier then. -/
inductive ShallowStatement (levels : Nat) : List Word → Prop
  | header (kind : Header) {ws : List Word} (h : Shallow (levels + 1) 1 ws)
      (hparen : ∀ w ∈ ws.head?, w.kind ≠ .lparen) :
      ShallowStatement levels (.ident kind.keyword :: ws)
  | assign {key : Word} {ws : List Word} (hkey : key.kind = .identifier ∨ key.kind = .string)
      (h : ShallowDeclaration levels ws) : ShallowStatement levels (key :: .sign .equals :: ws)

/-- The tokens of modifiers, and tokens that satisfy a condition after them. -/
def AfterModifiers (levels : Nat) (K : List Token → Prop) (ts : List Token) : Prop :=
  ∃ ms : List (String × List Word), (∀ m ∈ ms, ShallowModifier levels m) ∧
    Ahead (ms.flatMap Word.modifier) K ts

/-- The tokens of statements whose values nest no deeper than a number of levels. -/
def ShallowScript (levels : Nat) (ts : List Token) : Prop :=
  ∃ wss : List (List Word), (∀ ws ∈ wss, ShallowStatement levels ws) ∧
    Ahead wss.flatten (· = []) ts

/-- How deep a script nests depends on its words only. -/
theorem ShallowScript.congr {ts ts' : List Token} (h : ShallowScript levels ts)
    (hwords : ts'.map Token.word = ts.map Token.word) : ShallowScript levels ts' := by
  obtain ⟨wss, hwss, hts⟩ := h
  refine ⟨wss, hwss, ?_⟩
  rwa [ahead_eq_nil_iff, hwords, ← ahead_eq_nil_iff]

/-! ### Where a statement ends -/

/-- Tokens after a statement: none, or a name or a keyword that no parenthesis follows. -/
structure EndsHere (K : List Token → Prop) : Prop where
  kind : ∀ t, Leads K t → t.kind ∈ [.eof, .identifier, .string]
  next : ∀ t rest last, K (t :: rest) → last.kind = .eof → (rest.headD last).kind ≠ .lparen

/-- Nothing continues an expression at the end of a statement. -/
private theorem stops_of_ends {place : Nat} {t : Token}
    (h : t.kind ∈ [.eof, .identifier, .string]) : Stops place t :=
  stops_of_mem (by revert h; cases t.kind <;> decide)

theorem EndsHere.stops (hK : EndsHere K) {place : Nat} (t : Token) (ht : Leads K t) :
    Stops place t := stops_of_ends (hK.kind t ht)

theorem EndsHere.afterModifiers (hK : EndsHere K) {t : Token}
    (ht : Leads (AfterModifiers levels K) t) : t.kind ∈ [.eof, .identifier, .string] := by
  obtain ⟨ts, last, hlast, ⟨ms, -, hts⟩, rfl⟩ := ht
  cases ms with
  | nil => exact hK.kind _ ⟨ts, last, hlast, hts, rfl⟩
  | cons m ms =>
    have hkind : (ts.headD last).kind = .identifier := Leads.kind ⟨ts, last, hlast, hts, rfl⟩
    rw [hkind]
    decide

theorem endsHere_shallowScript : EndsHere (ShallowScript levels) where
  kind := by
    rintro _ ⟨ts, last, hlast, ⟨wss, hwss, hts⟩, rfl⟩
    cases wss with
    | nil =>
      obtain rfl : ts = [] := hts
      simp [hlast]
    | cons ws wss =>
      rw [List.forall_mem_cons] at hwss
      rw [List.flatten_cons] at hts
      cases hwss.1 with
      | header =>
        have hkind : (ts.headD last).kind = .identifier := Leads.kind ⟨ts, last, hlast, hts, rfl⟩
        rw [hkind]
        decide
      | @assign key _ hkey =>
        have hkind : (ts.headD last).kind = key.kind := Leads.kind ⟨ts, last, hlast, hts, rfl⟩
        rcases hkey with hkey | hkey <;> (rw [hkind, hkey]; decide)
  next := by
    rintro t rest last ⟨wss, hwss, hts⟩ hlast
    cases wss with
    | nil => cases hts
    | cons ws wss =>
      rw [List.forall_mem_cons] at hwss
      rw [List.flatten_cons] at hts
      cases hwss.1 with
      | header kind h hparen =>
        obtain ⟨w, more, rfl, -⟩ := h.starts
        obtain ⟨_, _, heq, -, hrest⟩ := hts
        cases heq
        have hkind : (rest.headD last).kind = w.kind := Leads.kind ⟨rest, last, hlast, hrest, rfl⟩
        rw [hkind]
        exact hparen w rfl
      | assign =>
        obtain ⟨_, _, heq, -, hrest⟩ := hts
        cases heq
        have hkind : (rest.headD last).kind = .equals :=
          Leads.kind ⟨rest, last, hlast, hrest, rfl⟩
        rw [hkind]
        decide

/-! ### Modifiers -/

/-- Looking for a modifier finds one only before a parenthesis. -/
private theorem run_atModifier (previous : Token) (ts : List Token) {last : Token}
    (hlast : last.kind = .eof) (depth : Nat) :
    ∃ b, (b = true → ∃ t rest, ts = t :: rest ∧ (rest.headD last).kind = .lparen) ∧
      atModifier.run.run (.before previous ts last depth) =
        (.ok b, .before previous ts last depth) := by
  unfold atModifier
  rw [run_bind_ok (run_get _)]
  split_ifs with hcurrent
  · cases ts with
    | nil => exact absurd (hlast.symm.trans hcurrent.1) (by decide)
    | cons t rest =>
      have hpeek : peek.run.run (.before previous (t :: rest) last depth) =
          (.ok (rest.headD last), .before previous (t :: rest) last depth) := by
        rw [run_peek]
        cases rest <;> rfl
      refine ⟨decide ((rest.headD last).kind = .lparen), fun h => ⟨t, rest, rfl, ?_⟩, ?_⟩
      · exact of_decide_eq_true h
      · rw [run_bind_ok hpeek]
        rfl
  · exact ⟨false, by simp, rfl⟩

private theorem endures_checkPolicy (token : Token) (value : Expr) :
    Endures depth P (checkPolicy token value) P := by
  unfold checkPolicy
  split
  · split_ifs
    · exact .pure _
    · exact .failAt rfl
  · exact .pure _

private theorem endures_modifiers (hK : EndsHere K) {ms : List (String × List Word)}
    (hm : ∀ m ∈ ms, ShallowModifier levels m) (seen : List String) (bound : Nat) :
    Endures depth (Ahead (ms.flatMap Word.modifier) K)
      (modifiers (expressionAt limit (levels + 1)) seen bound) (AfterModifiers levels K) := by
  induction bound generalizing ms seen with
  | zero => exact (Endures.pure _).weaken (fun _ h => h) fun ts hts => ⟨ms, hm, hts⟩
  | succ bound ih =>
    cases ms with
    | nil =>
      refine Endures.look (A := fun b => b = false) (fun previous ts last hlast hts => ?_) ?_
      · obtain ⟨b, hb, hrun⟩ := run_atModifier previous ts hlast depth
        refine ⟨b, Bool.eq_false_iff.2 fun htrue => ?_, hrun⟩
        obtain ⟨t, rest, rfl, hparen⟩ := hb htrue
        exact hK.next t rest last hts hlast hparen
      · rintro _ rfl
        exact (Endures.pure _).weaken (fun _ h => h) fun ts hts => ⟨[], hm, hts⟩
    | cons m ms =>
      rw [List.forall_mem_cons] at hm
      refine Endures.look (A := fun _ => True) (fun previous ts last hlast _ => ?_) fun b _ => ?_
      · obtain ⟨b, -, hrun⟩ := run_atModifier previous ts hlast depth
        exact ⟨b, trivial, hrun⟩
      · split_ifs
        · rw [List.flatMap_cons, Word.modifier, List.cons_append, List.cons_append,
            List.append_assoc, List.singleton_append]
          refine .advance (by simp) fun name _ => ?_
          split_ifs
          · exact .failAt rfl
          refine .expect (by decide) fun _ _ _ => ?_
          rw [ahead_append]
          refine ((hm.1.2.inner limit).1 depth _ fun t ht => stops_of_mem ?_).bind fun value => ?_
          · rw [ht.kind]
            decide
          refine .expect (by decide) fun _ _ _ => (endures_checkPolicy name value).bind fun _ => ?_
          exact (ih hm.2 _).bind_pure
        · exact (Endures.pure _).weaken (fun _ h => h) fun ts hts =>
            ⟨m :: ms, List.forall_mem_cons.2 hm, hts⟩

/-! ### Declarations -/

private theorem endures_typeSegments {names : List String} (segments : List String)
    (hK : ∀ t, Leads K t → t.kind ≠ .doubleColon) {bound : Nat} (hbound : names.length ≤ bound) :
    Endures depth
      (Ahead ((names.map fun x => [Word.ident x]).flatMap (.sign .doubleColon :: ·)) K)
      (typeSegments segments bound) K := by
  induction names generalizing segments bound with
  | nil =>
    cases bound with
    | zero => exact .pure _
    | succ bound => exact .accept_false hK (.pure _)
  | cons x names ih =>
    obtain ⟨bound, rfl⟩ := Nat.exists_eq_add_of_le' (Nat.one_le_of_lt hbound)
    refine .accept_true rfl (by decide) (.current fun t ht => ?_)
    rw [if_pos (show t.kind = .identifier from ht.kind)]
    exact .advance (by simp) fun _ _ => ih _ (Nat.le_of_succ_le_succ hbound)

private theorem endures_resourceType {type : List Word} (h : IsType type)
    (hK : ∀ t, Leads K t → t.kind ≠ .doubleColon) :
    Endures depth (Ahead type K) resourceType K := by
  cases h with
  | string s =>
    refine .current fun t ht => ?_
    rw [if_pos (show t.kind = .string from ht.kind)]
    refine .advance (by simp) fun _ _ => ?_
    split_ifs
    · exact .failAt rfl
    · exact .pure _
  | segments hne =>
    obtain ⟨x, names, rfl⟩ := List.exists_cons_of_ne_nil hne
    refine .current fun t ht => ?_
    rw [show t.kind = .identifier from ht.kind, if_neg (by decide), if_pos rfl]
    refine .advance (by simp) fun _ _ => .get fun s hs => (endures_typeSegments _ hK ?_).bind_pure
    have := (length_le_flatMap (.sign .doubleColon) (names.map fun x => [Word.ident x])).trans hs.le
    rwa [List.length_map] at this

private theorem ShallowFields.inner {fields : List (Word × List Word)}
    (h : ShallowFields levels fields) (limit : Nat) :
    ∀ field ∈ fields, Inner (expressionAt limit (levels + 1)) field.2 :=
  fun field hf => (h.values field hf).inner limit

private theorem endures_resource (hK : EndsHere K) {type : List Word}
    {properties : Option (List (Word × List Word))} {ms : List (String × List Word)}
    (ht : IsType type) (hp : ∀ fields ∈ properties, ShallowFields levels fields)
    (hm : ∀ m ∈ ms, ShallowModifier levels m) {w : Word} :
    Endures depth (Ahead (w :: (type ++
        ((properties.map objectWords).getD [] ++ ms.flatMap Word.modifier))) K)
      (resource (expressionAt limit (levels + 1))) (AfterModifiers levels K) := by
  have hfirst {kind : TokenKind} (hkind : kind ∉ [.eof, .identifier, .string]) (t : Token)
      (ht : Leads (Ahead (ms.flatMap Word.modifier) K) t) : t.kind ≠ kind := by
    rintro rfl
    obtain ⟨ts, last, hlast, hts, rfl⟩ := ht
    exact hkind (hK.afterModifiers ⟨ts, last, hlast, ⟨ms, hm, hts⟩, rfl⟩)
  have hmodifiers (type : String) (properties : Option (List (String × Expr))) :
      Endures depth (Ahead (ms.flatMap Word.modifier) K) (do
          let attributes ← modifiers (expressionAt limit (levels + 1)) [] (← get).remaining
          return Expr.resource type properties attributes) (AfterModifiers levels K) :=
    .get_any fun _ => (endures_modifiers hK hm [] _).bind_pure
  refine .expect (by decide) fun _ _ _ => ?_
  rw [ahead_append]
  cases properties with
  | none =>
    refine (endures_resourceType ht (hfirst (by decide))).bind fun type =>
      .at_false (hfirst (by decide)) ?_
    simp only [Bool.false_eq_true, if_false, pure_bind]
    exact hmodifiers type none
  | some fields =>
    have hfields := hp fields rfl
    refine (endures_resourceType ht fun t ht => ?_).bind fun type =>
      .at_true (fun t ht => ht.kind) ?_
    · rw [show t.kind = .lbrace from ht.kind]
      decide
    simp only [if_true, map_eq_pure_bind, bind_assoc, pure_bind, Option.map_some,
      Option.getD_some]
    rw [ahead_append]
    exact (endures_fields hfields.keys (hfields.inner limit)).bind fun _ => hmodifiers type _

/-- A primary expression that reaches up to the end of its statement. -/
private theorem endures_expressionAt_of_primary {w : Word}
    (h : Endures (depth + 1) (Ahead (w :: ws) K) (primary (expressionAt limit levels)) Q)
    (hw : w.kind = .identifier) (hQ : ∀ t, Leads Q t → t.kind ∈ [.eof, .identifier, .string]) :
    Endures depth (Ahead (w :: ws) K) (expressionAt limit (levels + 1)) Q := by
  have hfour := endures_ruleAt_primary h (fun t ht => by rw [ht.kind, hw]; decide)
    fun t ht => stops_of_ends (hQ t ht)
  have hone := endures_ruleAt_of_le hfour (show 1 ≤ 4 by decide) fun t ht => stops_of_ends (hQ t ht)
  exact hone.within

theorem ShallowDeclaration.endures (h : ShallowDeclaration levels ws) (hK : EndsHere K) :
    Endures depth (Ahead ws K) (expressionAt limit (levels + 2)) (AfterModifiers levels K) := by
  have hends (t : Token) (ht : Leads (AfterModifiers levels K) t) :
      t.kind ∈ [.eof, .identifier, .string] := hK.afterModifiers ht
  have hnone (ts : List Token) (hts : K ts) : AfterModifiers levels K ts := ⟨[], by simp, hts⟩
  cases h with
  | resource ht hp hm =>
    refine endures_expressionAt_of_primary (endures_primary_ident fun t ht' => ?_) rfl hends
    have hword : word (expressionAt limit (levels + 1)) t =
        Reader.resource (expressionAt limit (levels + 1)) := by
      unfold word
      simp [ht', keywordLiteral?]
    rw [hword]
    exact endures_resource hK ht hp hm
  | body kind hfields =>
    refine endures_expressionAt_of_primary (endures_primary_ident fun t ht => ?_) rfl hends
    have hword : word (expressionAt limit (levels + 1)) t = (do
        let _ ← advance
        return .body kind (← declarationBody (expressionAt limit (levels + 1)) t)) := by
      unfold word
      rw [ht]
      cases kind <;> rfl
    rw [hword]
    refine .advance (by simp) fun _ _ => Endures.bind_pure (.at_true (fun t ht => ht.kind) ?_)
    exact (endures_fields hfields.keys (hfields.inner limit)).weaken (fun _ h => h) hnone
  | condition h =>
    refine endures_expressionAt_of_primary (endures_primary_ident fun t ht => ?_) rfl hends
    have hword : word (expressionAt limit (levels + 1)) t = (do
        let _ ← advance
        return .condition (← expressionAt limit (levels + 1))) := by
      unfold word
      simp [ht, keywordLiteral?]
    rw [hword]
    refine .advance (by simp) fun _ _ => Endures.bind_pure ?_
    exact ((h.inner limit).1 (depth + 1) K hK.stops).weaken (fun _ h => h) hnone

/-! ### Statements -/

/-- A statement starts with no level of nesting. -/
private theorem endures_expression (h : Endures 0 P (expressionAt limit limit) Q) :
    Endures 0 P (expression limit) Q := by
  intro previous ts last hlast hts
  unfold expression atLevel
  rw [run_bind_ok (run_get _)]
  exact h previous ts last hlast hts

private theorem endures_header (kind : Header) {w : Word} (hw : w.kind = .identifier)
    (h : Shallow (levels + 1) 1 ws) (hK : ∀ t, Leads K t → Stops 1 t) :
    Endures 0 (Ahead (w :: ws) K) (header (levels + 2) kind) K := by
  refine .advance (by rw [hw]; decide) fun _ _ => .current fun token _ => ?_
  refine (endures_expression ((h.inner _).1 0 K hK)).bind fun value => ?_
  split_ifs
  · exact .pure _
  · exact .failAt (by cases kind <;> rfl)

private theorem endures_assignment {w : Word} (hw : w.kind ≠ .eof)
    (h : Endures 0 (Ahead ws K) (expression limit) Q) :
    Endures 0 (Ahead (w :: .sign .equals :: ws) K) (assignment limit) Q := by
  refine .advance hw fun name _ => .expect (by decide) fun _ _ _ => .current fun token _ => ?_
  refine h.bind fun value => ?_
  split_ifs
  · exact .pure _
  · exact .failAt rfl

/-- A statement that starts with an identifier is a header, unless an equals sign follows it. -/
private theorem endures_statement_ident {x : String} {w : Word} (hw : w.kind ≠ .equals)
    (h : ∀ kind, Header.ofKeyword? x = some kind →
      Endures 0 (Ahead (.ident x :: w :: ws) K) (header limit kind) Q) :
    Endures 0 (Ahead (.ident x :: w :: ws) K) (statement limit) Q := by
  refine .current fun t ht => ?_
  have hkind : t.kind = .identifier := ht.kind
  simp only [hkind, if_true, show t.value = x from congrArg Word.value ht.word]
  cases hheader : Header.ofKeyword? x with
  | some kind =>
    refine .peek fun next hnext => ?_
    rw [if_neg (by rw [hnext.kind]; exact hw)]
    exact h kind hheader
  | none =>
    simp only [true_or, if_true]
    exact .advance (by simp) fun _ _ => .expect (by decide) fun _ _ hequals => absurd hequals hw

private theorem endures_statement_assign {key : Word}
    (hkey : key.kind = .identifier ∨ key.kind = .string)
    (h : Endures 0 (Ahead (key :: .sign .equals :: ws) K) (assignment limit) Q) :
    Endures 0 (Ahead (key :: .sign .equals :: ws) K) (statement limit) Q := by
  refine .current fun t ht => ?_
  have hkind : t.kind = .identifier ∨ t.kind = .string := by rwa [ht.kind]
  generalize (if t.kind = .identifier then Header.ofKeyword? t.value else none) = header?
  cases header? with
  | some kind =>
    refine .peek fun next hnext => ?_
    rw [if_pos (show next.kind = .equals from hnext.kind)]
    exact h
  | none =>
    simp only [if_pos hkind]
    exact h

private theorem endures_statement_of_modifiers {ms : List (String × List Word)}
    (hms : ∀ m ∈ ms, ShallowModifier levels m) (hne : ms ≠ []) (hK : EndsHere K) :
    Endures 0 (Ahead (ms.flatMap Word.modifier) K) (statement (levels + 2))
      (AfterModifiers levels K) := by
  obtain ⟨m, ms, rfl⟩ := List.exists_cons_of_ne_nil hne
  rw [List.forall_mem_cons] at hms
  -- The value of a modifier is an expression in parentheses, which a header may have.
  have hgrouped : Shallow (levels + 1) 1 (.sign .lparen :: (m.2 ++ [.sign .rparen])) :=
    .grouped hms.1.2
  have hmore (t : Token) (ht : Leads (Ahead (ms.flatMap Word.modifier) K) t) : Stops 1 t := by
    obtain ⟨ts, last, hlast, hts, rfl⟩ := ht
    exact stops_of_ends (hK.afterModifiers ⟨ts, last, hlast, ⟨ms, hms.2, hts⟩, rfl⟩)
  rw [List.flatMap_cons, ahead_append]
  refine endures_statement_ident (by decide) fun kind _ => ?_
  exact (endures_header kind rfl hgrouped hmore).weaken (fun _ h => h)
    fun ts hts => ⟨ms, hms.2, hts⟩

private theorem ShallowStatement.endures (h : ShallowStatement levels ws) (hK : EndsHere K) :
    Endures 0 (Ahead ws K) (statement (levels + 2)) (AfterModifiers levels K) := by
  cases h with
  | header kind h hparen =>
    obtain ⟨w, more, rfl, hw⟩ := h.starts
    have hequals : w.kind ≠ .equals := fun heq => absurd (heq ▸ hw) (by decide)
    refine endures_statement_ident hequals fun kind _ => ?_
    exact (endures_header kind rfl h hK.stops).weaken (fun _ h => h)
      fun ts hts => ⟨[], by simp, hts⟩
  | assign hkey h =>
    refine endures_statement_assign hkey (endures_assignment ?_ (endures_expression (h.endures hK)))
    rcases hkey with hkey | hkey <;> (rw [hkey]; decide)

/-- Each statement is got through, also one that is a modifier left over. -/
theorem endures_statement :
    Endures 0 (AfterModifiers levels (ShallowScript levels)) (statement (levels + 2))
      (AfterModifiers levels (ShallowScript levels)) := by
  rintro previous ts last hlast ⟨ms, hms, hts⟩
  by_cases hne : ms = []
  · subst hne
    obtain ⟨wss, hwss, hts⟩ := hts
    cases wss with
    | nil =>
      have hnone : Endures 0 (· = []) (statement (levels + 2))
          (AfterModifiers levels (ShallowScript levels)) := by
        refine .current fun t ht => ?_
        obtain ⟨_, last, hlast, rfl, rfl⟩ := ht
        simp only [List.headD_nil, hlast]
        exact .fail rfl
      exact hnone previous ts last hlast hts
    | cons ws wss =>
      rw [List.forall_mem_cons] at hwss
      rw [List.flatten_cons, ahead_append] at hts
      exact hwss.1.endures endsHere_shallowScript previous ts last hlast
        (hts.imp fun _ hts => ⟨wss, hwss.2, hts⟩)
  · exact endures_statement_of_modifiers hms hne endsHere_shallowScript previous ts last hlast hts

private theorem endures_noteStatement (token : Token) (seen : Seen) (st : Statement) :
    Endures depth P (noteStatement token seen st) P := by
  unfold noteStatement
  split
  · split_ifs
    · exact .failAt rfl
    · exact .pure _
  · split_ifs
    · exact .failAt rfl
    · exact .pure _

theorem endures_statements (seen : Seen) (bound : Nat) :
    Endures 0 (AfterModifiers levels (ShallowScript levels)) (statements (levels + 2) seen bound)
      fun _ => True := by
  have hdone : Endures 0 (AfterModifiers levels (ShallowScript levels))
      (Pure.pure [] : Reader (List Statement)) fun _ => True :=
    (Endures.pure _).weaken (fun _ h => h) fun _ _ => trivial
  induction bound generalizing seen with
  | zero => exact hdone
  | succ bound ih =>
    refine .current fun token _ => ?_
    split_ifs
    · exact hdone
    · refine endures_statement.bind fun first => ?_
      exact (endures_noteStatement token seen first).bind fun seen => (ih seen).bind_pure

theorem endures_template :
    Endures 0 (AfterModifiers levels (ShallowScript levels)) (template (levels + 2))
      fun _ => True :=
  .get_any fun s => (endures_statements {} s.remaining).bind_pure

end Reader

/-- **Scripts that do not nest too deep.** Where the values in the statements of a script leave two
levels, the script is not refused for its nesting. -/
theorem isTooDeep_eq_false_of_parseScript {levels limit : Nat} {text : List Char} {ts : List Token}
    {last : Token} (htext : TokenStream.ofText text = ⟨ts.map .ok, .ok last⟩)
    (hlast : last.kind = .eof) (hts : Reader.ShallowScript levels ts) (hlimit : limit = levels + 2)
    {e : ScriptError} (h : parseScript limit text = .error e) : e.isTooDeep = false := by
  subst hlimit
  have hsettles := Reader.endures_template (ts.headD last) ts last hlast ⟨[], by simp, hts⟩
  unfold parseScript at h
  rw [ReaderState.start_of_ofText htext] at h
  cases hrun : (Reader.template (levels + 2)).run.run (.before (ts.headD last) ts last 0) with
  | mk result s =>
    rw [hrun] at hsettles
    simp only [hrun] at h
    subst h
    exact hsettles

end StackScript
