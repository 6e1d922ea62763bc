import StackScript.Proofs.Grammar.Accepted

/-!
# The words of expressions

For every way to put an expression together, the words that it consists of. Whatever tokens say
these words, on whatever lines, the grammar derives the expression from them; hence the rule for its
place reads it.

## Main definitions

* `Grammar.Worded`: the words of an expression, with a number of nesting levels left.
* `Grammar.WordedField`: the words of a property.

## Main results

* `Grammar.Worded.equality`, `Grammar.Worded.conjunction`, …: operators.
* `Grammar.Worded.array`, `Grammar.Worded.call`, `Grammar.worded_nameWords`, …: expressions without
  operators.
* `Grammar.Worded.readsInside`, `Grammar.reads_fields`: the rules read them.
-/

namespace StackScript.Grammar

open Reader

variable {levels inner place other line limit : Nat} {phrase : Phrase} {kind : TokenKind}
  {e : Expr} {args : List Expr} {fields : List (String × Expr)} {ts : List Token}
  {tss : List (List Token)} {ws ws' : List Word} {wss : List (List Word)}

/-- The words of an expression: it is derived from all tokens that say them. -/
def Worded (levels : Nat) (phrase : Phrase) (e : Expr) (ws : List Word) : Prop :=
  ∀ ts : List Token, ts.map Token.word = ws → DerivesIn levels phrase ts e

namespace Worded

theorem of_le (h : Worded levels (phraseAt other) e ws) (hle : place ≤ other) :
    Worded levels (phraseAt place) e ws := fun ts hts => derivesIn_of_le hle (h ts hts)

theorem of_suffixed (h : Worded levels .suffixed e ws) : Worded levels (phraseAt place) e ws :=
  fun ts hts => derivesIn_of_suffixed place (h ts hts)

theorem suffixed (h : Worded levels .primary e ws) : Worded levels .suffixed e ws :=
  fun ts hts => .plain (h ts hts)

theorem starts (h : Worded levels (phraseAt place) e ws) : Starts ws := by
  have hfirst : (phraseAt place).firstKinds = startKinds := by
    rcases place with _ | _ | _ | _ | place <;> rfl
  let token (w : Word) : Token := ⟨w.kind, w.value, 0, 0⟩
  have hwords : (ws.map token).map Token.word = ws := by
    rw [List.map_map]
    exact List.map_id ws
  obtain ⟨t, more, heq, ht⟩ := (h _ hwords).startsIn
  rw [heq] at hwords
  exact ⟨t.word, more.map Token.word, hwords.symm, hfirst ▸ ht⟩

/-! ### Operators -/

theorem equality {left right : Expr} (hl : Worded levels .unary left ws)
    (hr : Worded levels .unary right ws') :
    Worded levels .comparison (.call "Equals" [left, right] (some .eq))
      (ws ++ .sign .doubleEquals :: ws') := by
  intro ts hts
  obtain ⟨ts, more, rfl, rfl, hmore⟩ := List.map_eq_append_iff.1 hts
  obtain ⟨sign, ts', rfl, hsign, rfl⟩ := List.map_eq_cons_iff.1 hmore
  exact .equality (hl ts rfl) (congrArg Word.kind hsign) (hr ts' rfl)

theorem inequality {left right : Expr} (hl : Worded levels .unary left ws)
    (hr : Worded levels .unary right ws') :
    Worded levels .comparison (.call "Not" [.call "Equals" [left, right] none] (some .ne))
      (ws ++ .sign .notEquals :: ws') := by
  intro ts hts
  obtain ⟨ts, more, rfl, rfl, hmore⟩ := List.map_eq_append_iff.1 hts
  obtain ⟨sign, ts', rfl, hsign, rfl⟩ := List.map_eq_cons_iff.1 hmore
  exact .inequality (hl ts rfl) (congrArg Word.kind hsign) (hr ts' rfl)

theorem negation (h : Worded inner .unary e ws) (hi : inner < levels) :
    Worded levels .unary (.call "Not" [e] (some .not)) (.sign .bang :: ws) := by
  intro ts hts
  obtain ⟨bang, ts, rfl, hbang, rfl⟩ := List.map_eq_cons_iff.1 hts
  exact .negation (congrArg Word.kind hbang) hi (h ts rfl)

end Worded

/-! ### Lists of things -/

/-- Things whose words have a sign between them. -/
private theorem exists_items {α γ : Type} {R : α → List Word → Prop} {tokens : γ → List Token}
    {value : γ → α} {good : γ → Prop}
    (hitem : ∀ {x ts}, R x (ts.map Token.word) → ∃ p, tokens p = ts ∧ value p = x ∧ good p)
    {xs : List α} (h : List.Forall₂ R xs wss)
    (hts : ts.map Token.word = Word.joined (.sign kind) wss) :
    ∃ ps : List γ, ps.map value = xs ∧
      (ps = [] ∧ ts = [] ∨ Separated kind (ps.map tokens) ts) ∧ ∀ p ∈ ps, good p := by
  cases h with
  | nil => exact ⟨[], rfl, .inl ⟨rfl, List.map_eq_nil_iff.1 hts⟩, by simp⟩
  | @cons x ws xs wss hx h =>
    induction h generalizing ts x ws with
    | nil =>
      rw [Word.joined, List.flatMap_nil, List.append_nil] at hts
      obtain ⟨p, rfl, rfl, hp⟩ := hitem (hts ▸ hx)
      exact ⟨[p], rfl, .inr (.single _), by simpa using hp⟩
    | @cons x' ws' xs wss hx' _ ih =>
      obtain ⟨ts, more, rfl, rfl, hmore⟩ := List.map_eq_append_iff.1 hts
      obtain ⟨sign, rest, rfl, hsign, hrest⟩ := List.map_eq_cons_iff.1 hmore
      obtain ⟨p, rfl, rfl, hp⟩ := hitem hx
      obtain ⟨ps, hps, ⟨rfl, -⟩ | hs, hgood⟩ := ih hx' hrest
      · cases hps
      · exact ⟨p :: ps, by rw [List.map_cons, hps], .inr (.cons _ (congrArg Word.kind hsign) hs),
          List.forall_mem_cons.2 ⟨hp, hgood⟩⟩

theorem listed_of_separated (h : tss = [] ∧ ts = [] ∨ Separated .comma tss ts) : Listed tss ts := by
  rcases h with ⟨rfl, rfl⟩ | h
  · exact .nil
  · exact .plain h

/-- Tokens that say words in brackets. -/
private theorem exists_of_enclosed {opening closing : TokenKind}
    (h : ts.map Token.word = .sign opening :: (ws ++ [.sign closing])) :
    ∃ first inside last, ts = first :: (inside ++ [last]) ∧ first.kind = opening ∧
      inside.map Token.word = ws ∧ last.kind = closing := by
  obtain ⟨first, more, rfl, hfirst, hmore⟩ := List.map_eq_cons_iff.1 h
  obtain ⟨inside, more, rfl, hinside, hmore⟩ := List.map_eq_append_iff.1 hmore
  obtain ⟨last, rfl, hlast⟩ := List.map_eq_singleton_iff.1 hmore
  exact ⟨first, inside, last, rfl, congrArg Word.kind hfirst, hinside, congrArg Word.kind hlast⟩

/-- Expressions with a sign between them. -/
private theorem exists_parts (h : List.Forall₂ (Worded levels phrase) args wss)
    (hts : ts.map Token.word = Word.joined (.sign kind) wss) :
    ∃ parts : List (List Token × Expr), parts.map Prod.snd = args ∧
      (parts = [] ∧ ts = [] ∨ Separated kind (parts.map Prod.fst) ts) ∧
      ∀ p ∈ parts, DerivesIn levels phrase p.1 p.2 :=
  exists_items (fun {e ts} he => ⟨(ts, e), rfl, rfl, he ts rfl⟩) h hts

theorem Worded.conjunction (h : List.Forall₂ (Worded levels .comparison) args wss)
    (hn : 2 ≤ args.length) :
    Worded levels .conjunction (.call "And" args (some .and))
      (Word.joined (.sign .doubleAmpersand) wss) := by
  intro ts hts
  obtain ⟨parts, rfl, ⟨rfl, -⟩ | hs, hparts⟩ := exists_parts h hts
  · simp at hn
  · exact .conjunction (by simpa using hn) hs hparts

theorem Worded.disjunction (h : List.Forall₂ (Worded levels .conjunction) args wss)
    (hn : 2 ≤ args.length) :
    Worded levels .disjunction (.call "Or" args (some .or))
      (Word.joined (.sign .doublePipe) wss) := by
  intro ts hts
  obtain ⟨parts, rfl, ⟨rfl, -⟩ | hs, hparts⟩ := exists_parts h hts
  · simp at hn
  · exact .disjunction (by simpa using hn) hs hparts

theorem Worded.array (h : List.Forall₂ (Worded inner .disjunction) args wss)
    (hi : args ≠ [] → inner < levels) :
    Worded levels .primary (.array args) (Word.enclosed .lbracket .rbracket wss) := by
  intro ts hts
  obtain ⟨opening, inside, closing, rfl, ho, hinside, hc⟩ := exists_of_enclosed hts
  obtain ⟨parts, rfl, hs, hparts⟩ := exists_parts h hinside
  exact .array ho (listed_of_separated (by simpa using hs)) (fun hne => hi (by simpa using hne))
    hparts hc

theorem Worded.call {function : String} (hf : IsName function)
    (href : function = "Ref" → ∃ s, args = [.literal (.str s)])
    (h : List.Forall₂ (Worded inner .disjunction) args wss) (hi : args ≠ [] → inner < levels) :
    Worded levels .primary (.call function args none)
      (.ident function :: Word.enclosed .lparen .rparen wss) := by
  intro ts hts
  obtain ⟨name, ts, rfl, hname, hts⟩ := List.map_eq_cons_iff.1 hts
  obtain ⟨opening, inside, closing, rfl, ho, hinside, hc⟩ := exists_of_enclosed hts
  obtain ⟨parts, rfl, hs, hparts⟩ := exists_parts h hinside
  obtain rfl : name.value = function := congrArg Word.value hname
  exact .call (congrArg Word.kind hname) hf ho hs (fun hne => hi (by simpa using hne)) hparts hc
    href

theorem Worded.grouped (h : Worded inner .disjunction e ws) (hi : inner < levels) :
    Worded levels .primary e (.sign .lparen :: (ws ++ [.sign .rparen])) := by
  intro ts hts
  obtain ⟨opening, inside, closing, rfl, ho, hinside, hc⟩ := exists_of_enclosed hts
  exact .grouped ho hi (h inside hinside) hc

/-! ### Objects -/

/-- The words of a property of an object. -/
def WordedField (levels : Nat) (field : String × Expr) (ws : List Word) : Prop :=
  ∃ key value, ws = key :: .sign .colon :: value ∧ key.kind ∈ [.identifier, .string] ∧
    key.value = field.1 ∧ Worded levels .disjunction field.2 value

/-- A property that is derived from its tokens. -/
private def Field.IsDerived (levels : Nat) (f : Field) : Prop :=
  (f.key.kind ∈ [.identifier, .string, .number] ∧ f.colon.kind = .colon) ∧
    DerivesIn levels .disjunction f.inside f.value

private theorem WordedField.exists_field {field : String × Expr}
    (h : WordedField levels field (ts.map Token.word)) :
    ∃ f : Field, f.tokens = ts ∧ f.field = field ∧ f.IsDerived levels := by
  obtain ⟨key, value, hwords, hkind, hvalue, he⟩ := h
  obtain ⟨key, ts, rfl, rfl, hts⟩ := List.map_eq_cons_iff.1 hwords
  obtain ⟨colon, ts, rfl, hcolon, hts⟩ := List.map_eq_cons_iff.1 hts
  have hkinds : ∀ kind ∈ [TokenKind.identifier, .string],
      kind ∈ [TokenKind.identifier, .string, .number] := by decide
  exact ⟨⟨key, colon, ts, field.2⟩, rfl, Prod.ext hvalue rfl,
    ⟨hkinds _ hkind, congrArg Word.kind hcolon⟩, he ts hts⟩

/-- The tokens of properties in braces. -/
private theorem exists_fields (h : List.Forall₂ (WordedField inner) fields wss)
    (hts : ts.map Token.word = Word.enclosed .lbrace .rbrace wss) :
    ∃ opening inside closing, ∃ parts : List Field, ts = opening :: (inside ++ [closing]) ∧
      opening.kind = .lbrace ∧ closing.kind = .rbrace ∧ parts.map Field.field = fields ∧
      Listed (parts.map Field.tokens) inside ∧ ∀ f ∈ parts, f.IsDerived inner := by
  obtain ⟨opening, inside, closing, rfl, ho, hinside, hc⟩ := exists_of_enclosed hts
  obtain ⟨parts, hfields, hs, hparts⟩ := exists_items WordedField.exists_field h hinside
  exact ⟨opening, inside, closing, parts, rfl, ho, hc, hfields,
    listed_of_separated (by simpa using hs), hparts⟩

theorem Worded.object (h : List.Forall₂ (WordedField inner) fields wss)
    (hi : fields ≠ [] → inner < levels) (hkeys : (fields.map Prod.fst).Nodup) :
    Worded levels .primary (.object fields) (Word.enclosed .lbrace .rbrace wss) := by
  intro ts hts
  obtain ⟨opening, inside, closing, parts, rfl, ho, hc, rfl, hs, hparts⟩ := exists_fields h hts
  rw [List.map_map] at hkeys
  exact .objectLiteral (.object ho hs (fun f hf => (hparts f hf).1)
    (fun hne => hi (by simpa using hne)) (fun f hf => (hparts f hf).2) hkeys hc)

/-! ### Literals and names -/

private theorem worded_single {w : Word}
    (h : ∀ t : Token, t.kind = w.kind → t.value = w.value → DerivesIn levels phrase [t] e) :
    Worded levels phrase e [w] := by
  intro ts hts
  obtain ⟨t, rfl, ht⟩ := List.map_eq_singleton_iff.1 hts
  exact h t (congrArg Word.kind ht) (congrArg Word.value ht)

theorem worded_string (s : String) : Worded levels .primary (.literal (.str s)) [.str s] := by
  refine worded_single fun t hk hv => ?_
  obtain rfl : t.value = s := hv
  exact .string hk

theorem worded_number {text : List Char} {value : Scalar} (hnumeral : IsNumeral text)
    (h : numberValue text = some value) :
    Worded levels .primary (.literal value) [⟨.number, String.ofList text⟩] := by
  refine worded_single fun t hk hv => ?_
  have htext : t.value.toList = text := by rw [hv, String.toList_ofList]
  have hlexical : t.IsLexical :=
    ⟨fun hword => by simp [hk] at hword, fun _ => htext ▸ Lexeme.numeral_of_isNumeral hnumeral⟩
  exact .number hk hlexical (by rw [htext, h])

theorem worded_keyword {x : String} {value : Scalar} (h : keywordLiteral? x = some value) :
    Worded levels .primary (.literal value) [.ident x] :=
  worded_single fun _ hk hv => .word hk (hv ▸ h)

theorem worded_name {x : String} (hx : IsName x) :
    Worded levels .suffixed (.name x) [.ident x] := by
  refine worded_single fun t hk hv => ?_
  obtain rfl : t.value = x := hv
  exact .plain (.name hk hx)

/-! ### Attribute access -/

/-- An attribute after a point. -/
private theorem Worded.dot {e' : Expr} {attr : String} (h : Worded levels .suffixed e ws)
    (hdot : ∀ {ts : List Token} {dot token : Token}, DerivesIn levels .suffixed ts e →
      dot.kind = .dot → token.kind = .identifier → token.value = attr →
        DerivesIn levels .suffixed (ts ++ [dot, token]) e') :
    Worded levels .suffixed e' (ws ++ [.sign .dot, .ident attr]) := by
  intro ts hts
  obtain ⟨ts, more, rfl, rfl, hmore⟩ := List.map_eq_append_iff.1 hts
  obtain ⟨dot, more, rfl, hd, hmore⟩ := List.map_eq_cons_iff.1 hmore
  obtain ⟨token, rfl, ht⟩ := List.map_eq_singleton_iff.1 hmore
  exact hdot (h ts rfl) (congrArg Word.kind hd) (congrArg Word.kind ht) (congrArg Word.value ht)

theorem worded_member {x : String} {path : List String} (hx : IsName x)
    (hbase : x ≠ Expr.pseudoBase) (hne : path ≠ []) :
    Worded levels .suffixed (.member (.name x) path)
      (.ident x :: path.flatMap fun attr => [.sign .dot, .ident attr]) := by
  have hstarts : (Expr.name x).startsPath = true := by
    simp [Expr.startsPath, hbase, isPseudo_eq_false_of_isWord hx.word]
  induction path using List.reverseRecOn with
  | nil => exact absurd rfl hne
  | append_singleton path attr ih =>
    rw [List.flatMap_append, ← List.cons_append, List.flatMap_singleton]
    by_cases hpath : path = []
    · subst hpath
      refine (worded_name hx).dot fun h hd hk hv => ?_
      obtain rfl := hv
      exact .member h hstarts hd hk
    · refine (ih hpath).dot fun h hd hk hv => ?_
      obtain rfl := hv
      exact .further h hd hk

/-- The words of a name or a pseudo parameter. -/
theorem worded_nameWords {x : String} (hx : Readable levels 4 (.name x)) :
    Worded levels .suffixed (.name x) (nameWords x) := by
  cases hx with
  | name hx =>
    rw [nameWords, if_neg (by simp [isPseudo_eq_false_of_isWord hx.word])]
    exact worded_name hx
  | @pseudo _ _ attr ha =>
    rw [nameWords, if_pos (isPseudo_pseudoName attr), pseudoTail_pseudoName]
    refine (worded_name isName_pseudoBase).dot fun h hd hk hv => ?_
    obtain rfl := hv
    exact .pseudo h hd hk
  | grouped hp => exact absurd hp (by simp [Expr.precedence])

theorem Worded.bracket {path : List String} (h : Worded levels .suffixed e ws) (hne : path ≠ []) :
    Worded levels .suffixed (.bracket e path)
      (ws ++ Word.enclosed .lbracket .rbracket (path.map fun s => [.str s])) := by
  intro ts hts
  obtain ⟨ts, more, rfl, rfl, hmore⟩ := List.map_eq_append_iff.1 hts
  obtain ⟨opening, inside, closing, rfl, ho, hinside, hc⟩ := exists_of_enclosed hmore
  have hpath : List.Forall₂ (fun s ws => ws = [Word.str s]) path (path.map fun s => [.str s]) :=
    List.forall₂_map_right_iff.2 (List.forall₂_same.2 fun _ _ => rfl)
  have hsegment {s : String} {ts : List Token} (hts : ts.map Token.word = [.str s]) :
      ∃ t : Token, [t] = ts ∧ t.value = s ∧ t.kind = .string := by
    obtain ⟨t, rfl, ht⟩ := List.map_eq_singleton_iff.1 hts
    exact ⟨t, rfl, congrArg Word.value ht, congrArg Word.kind ht⟩
  obtain ⟨segments, rfl, ⟨rfl, -⟩ | hs, hk⟩ := exists_items hsegment hpath hinside
  · exact absurd rfl hne
  · exact .bracket (h ts rfl) ho hk hs hc

/-! ### Reading -/

/-- A rule that takes all tokens that say some words reads these words. -/
theorem reads_of_takes {α : Type} {rule : Reader α} {stop : Token → Prop} {a : α}
    (h : ∀ ts : List Token, ts.map Token.word = ws → Takes rule stop ts a) :
    Reads line rule stop ws a := by
  intro previous ts rest last depth hprevious hline hwords hrest
  have hahead (previous : Token) (ts : List Token) :
      ReaderState.before previous (ts ++ rest) last depth =
        .ahead previous ts (rest.headD last) ⟨rest.map .ok, .ok last⟩ depth := by
    cases ts <;> simp [ReaderState.before, ReaderState.ahead, TokenStream.tail]
  have hhead : TokenStream.head ⟨rest.map .ok, .ok last⟩ = .ok (rest.headD last) := by
    cases rest <;> rfl
  refine ⟨ts.getLastD previous, ?_, ?_⟩
  · rcases List.eq_nil_or_concat' ts with rfl | ⟨ts, t, rfl⟩
    · exact hprevious
    · simpa using hline t (by simp)
  · rw [hahead previous ts, (h ts hwords).run _ _ _ _ hhead hrest]
    exact congrArg _ (hahead _ []).symm

/-- The words of an expression are read one level further out. -/
theorem Worded.readsInside (h : Worded inner .disjunction e ws) (hi : inner < levels) :
    ReadsInside line limit levels ws e :=
  ⟨reads_of_takes fun ts hts => (takesInside_of_derivesIn (h ts hts) hi limit).takes,
    @starts _ 1 _ _ h⟩

theorem reads_fields {next : Token → Prop} (h : List.Forall₂ (WordedField inner) fields wss)
    (hi : fields ≠ [] → inner < levels) (hkeys : (fields.map Prod.fst).Nodup) :
    Reads line (Reader.fields (expressionAt limit levels)) next (Word.enclosed .lbrace .rbrace wss)
      fields := by
  refine reads_of_takes fun ts hts => ?_
  obtain ⟨opening, inside, closing, parts, rfl, ho, hc, rfl, hs, hparts⟩ := exists_fields h hts
  rw [List.map_map] at hkeys
  refine takes_fields hs (fun f hf => (hparts f hf).1) (fun f hf => ?_) hkeys ho hc
  exact takesInside_of_derivesIn (hparts f hf).2 (hi (by simpa using List.ne_nil_of_mem hf)) limit

end StackScript.Grammar
