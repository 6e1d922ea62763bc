import StackScript.Proofs.Grammar.ShallowScripts
import StackScript.Proofs.Spelling.Scripts

/-!
# How deep spellings nest

The words of a spelling nest as the expression does: lists, objects and calls take a level, and so
does a negation. An operator takes none by itself but may stand in parentheses, which take one. So
if the parts of an expression fit into a number of levels, one level more is enough for the
expression, wherever it stands. Keys may come twice here and policies may be any names, as such
expressions have a spelling too.

## Main definitions

* `Expr.Fits`: the spelling of an expression in a place nests no deeper than a number of levels.
* `Statement.Fits`: the values in the spelling of a statement do not.

## Main results

* `Expr.fits_array`, `Expr.fits_object`, `Expr.fits_call`, `Expr.fits_equality`, …: an expression
  takes one level more than its parts.
* `Template.exists_shallowScript`: the tokens of the spelling of statements that fit.
-/

namespace StackScript

open Reader Text

private theorem forall_mem_of_forall₂ {α β : Type} {P : β → Prop} {l : List α} {l' : List β}
    (h : List.Forall₂ (fun _ b => P b) l l') : ∀ b ∈ l', P b := by
  intro b hb
  obtain ⟨-, -, hP⟩ := exists_of_mem_right h hb
  exact hP

namespace Expr

/-- The spelling of an expression in a place nests no deeper than a number of levels. -/
def Fits (levels place : Nat) (e : Expr) : Prop := SpellsTo place e (Shallow levels place)

variable {levels more place : Nat} {e : Expr} {text : List Char} {ws : List Word}

theorem SpellsTo.imp {P Q : List Word → Prop} (h : SpellsTo place e P) (himp : ∀ ws, P ws → Q ws) :
    SpellsTo place e Q :=
  let ⟨text, ws, hspell, hspelled, hws⟩ := h
  ⟨text, ws, hspell, hspelled, himp ws hws⟩

theorem Fits.mono (h : Fits levels place e) (hle : levels ≤ more) : Fits more place e :=
  SpellsTo.imp h fun _ hws => hws.mono hle

/-- An expression in a place that asks for no more than its precedence. -/
theorem spellsTo_of_le {P : List Word → Prop} (hp : place ≤ e.precedence)
    (hspell : e.spell = .ok text) (hs : Spelled text ws) (h : P ws) : SpellsTo place e P :=
  ⟨text, ws, hspell, by rwa [parenthesize_of_le hp], h⟩

/-- An expression without operators stands in every place as it is. -/
private theorem spellsTo_of_atom {P : List Word → Prop} (hatom : e.precedence = 5)
    (hp : place ≤ 4) (hspell : e.spell = .ok text) (hs : Spelled text ws) (h : P ws) :
    SpellsTo place e P :=
  spellsTo_of_le (by omega) hspell hs h

/-- One level more makes room for parentheses. -/
private theorem fits_succ (hspell : e.spell = .ok text) (hs : Spelled text ws)
    (h : Shallow levels e.precedence ws) : Fits (levels + 1) place e := by
  rcases Nat.lt_or_ge e.precedence place with hp | hp
  · refine ⟨text, .sign .lparen :: (ws ++ [.sign .rparen]), hspell, ?_,
      .grouped (h.lower e.one_le_precedence)⟩
    rw [parenthesize_of_lt hp]
    exact hs.enclosed (by decide) rfl rfl
  · exact spellsTo_of_le hp hspell hs ((h.lower hp).mono levels.le_succ)

/-! ### Names and literals -/

theorem fits_literal {s : Scalar} (hs : s.IsSpellable) (hp : place ≤ 4) :
    Fits levels place (.literal s) := by
  obtain ⟨text, w, hspell, hspelled, hliteral, -⟩ := hs.exists_word
  exact spellsTo_of_atom rfl hp hspell hspelled (.literal hliteral)

theorem fits_string (s : String) (hp : place ≤ 4) : Fits levels place (.literal (.str s)) :=
  fits_literal trivial hp

private theorem spelled_bare {x : String} (hx : IsName x) :
    SpelledBefore EndsName (spellName x) [.ident x] := by
  have hspelled := @spelled_name 0 x (.name hx)
  rwa [nameWords, if_neg (by simp [isPseudo_eq_false_of_isWord hx.word])] at hspelled

theorem fits_name {x : String} (hx : IsName x) (hp : place ≤ 4) : Fits levels place (.name x) :=
  spellsTo_of_atom rfl hp rfl ((spelled_bare hx).imp fun _ => Ends.endsName)
    (@Shallow.name _ _ _ [] hx (by simp))

theorem fits_pseudo {attr : String} (ha : isWord attr.toList = true) (hp : place ≤ 4) :
    Fits levels place (.name (pseudoName attr)) := by
  have hspelled := @spelled_name 0 _ (.pseudo ha)
  refine spellsTo_of_atom rfl hp rfl (hspelled.imp fun _ => Ends.endsName) ?_
  rw [nameWords, if_pos (isPseudo_pseudoName attr), pseudoTail_pseudoName]
  exact @Shallow.name _ _ _ [_] isName_pseudoBase (List.forall_mem_singleton.2 (.dot attr))

theorem fits_member {x : String} {path : List String} (hx : IsName x) (hne : path ≠ [])
    (hpath : ∀ attr ∈ path, isWord attr.toList = true) (hp : place ≤ 4) :
    Fits levels place (.member (.name x) path) := by
  obtain ⟨text, hspell, hspelled⟩ := exists_spell_member hx.word hne hpath
  refine spellsTo_of_atom rfl hp hspell (hspelled.imp fun _ => Ends.endsName) ?_
  rw [List.flatMap_def]
  exact .name hx (List.forall_mem_map.2 fun attr _ => .dot attr)

theorem fits_bracket {x : String} {path : List String} (hx : IsName x) (hne : path ≠ [])
    (hp : place ≤ 4) : Fits levels place (.bracket (.name x) path) := by
  have hname := @Shallow.name levels place _ [_] hx (List.forall_mem_singleton.2 (.bracket hne))
  rw [List.flatten_singleton] at hname
  exact spellsTo_of_atom rfl hp rfl
    ((spelled_bare hx).append_brackets (spelled_path path) (by decide) rfl rfl) hname

/-! ### Lists, objects and calls -/

/-- The items of a list or the arguments of a call. -/
private theorem exists_shallow_items {items : List Expr} (h : ∀ e ∈ items, Fits levels 1 e) :
    ∃ texts wss, spellAll items = .ok texts ∧
      Spelled (commas texts) (Word.joined (.sign .comma) wss) ∧
      ∀ ws ∈ wss, Shallow levels 1 ws := by
  obtain ⟨texts, wss, hspell, hspelled, hwss⟩ := exists_spellOperands h
  exact ⟨texts, wss, by rw [spellAll_eq, hspell], spelled_commas hspelled,
    forall_mem_of_forall₂ hwss⟩

/-- The properties of an object, in braces. -/
private theorem exists_shallowFields {fields : List (String × Expr)}
    (h : ∀ field ∈ fields, Fits levels 1 field.2) :
    ∃ texts parts, spellFields fields = .ok texts ∧
      Spelled (braces texts) (objectWords parts) ∧ ShallowFields levels parts := by
  obtain ⟨texts, parts, hspell, hspelled, hparts⟩ := exists_spellFields h
  refine ⟨texts, parts, hspell, spelled_braces hspelled, ⟨?_, ?_⟩⟩
  · refine forall_mem_of_forall₂ (hparts.imp fun field part hpart => ?_)
    simpa [hpart.1] using keyWord_kind field.1
  · exact forall_mem_of_forall₂ (hparts.imp fun _ _ hpart => hpart.2)

/-- A list is spelled in brackets. -/
theorem spellsTo_array {items : List Expr} (h : ∀ e ∈ items, Fits levels 1 e) (hp : place ≤ 4) :
    SpellsTo place (.array items) fun ws =>
      ∃ wss, ws = Word.enclosed .lbracket .rbracket wss ∧ ∀ ws ∈ wss, Shallow levels 1 ws := by
  obtain ⟨texts, wss, hspell, hspelled, hwss⟩ := exists_shallow_items h
  exact spellsTo_of_atom rfl hp (by rw [spell, hspell]; rfl) (hspelled.enclosed (by decide) rfl rfl)
    ⟨wss, rfl, hwss⟩

/-- An object is spelled in braces. -/
theorem spellsTo_object {fields : List (String × Expr)}
    (h : ∀ field ∈ fields, Fits levels 1 field.2) (hp : place ≤ 4) :
    SpellsTo place (.object fields) fun ws =>
      ∃ parts, ws = objectWords parts ∧ ShallowFields levels parts := by
  obtain ⟨texts, parts, hspell, hspelled, hparts⟩ := exists_shallowFields h
  exact spellsTo_of_atom rfl hp (by rw [spell, hspell]; rfl) hspelled ⟨parts, rfl, hparts⟩

theorem fits_array {items : List Expr} (h : ∀ e ∈ items, Fits levels 1 e) (hp : place ≤ 4) :
    Fits (levels + 1) place (.array items) :=
  (spellsTo_array h hp).imp fun _ ⟨_, hws, hwss⟩ => hws ▸ .array hwss

theorem fits_object {fields : List (String × Expr)} (h : ∀ field ∈ fields, Fits levels 1 field.2)
    (hp : place ≤ 4) : Fits (levels + 1) place (.object fields) :=
  (spellsTo_object h hp).imp fun _ ⟨_, hws, hparts⟩ => hws ▸ .object hparts.keys hparts.values

theorem fits_call {function : String} {args : List Expr} (hf : IsName function)
    (h : ∀ e ∈ args, Fits levels 1 e) (hp : place ≤ 4) :
    Fits (levels + 1) place (.call function args none) := by
  obtain ⟨texts, wss, hspell, hspelled, hwss⟩ := exists_shallow_items h
  exact spellsTo_of_atom rfl hp (by rw [spell, hspell]; rfl)
    ((spelled_word hf.word).append_brackets hspelled (by decide) rfl rfl) (.call hf hwss)

/-! ### Operators -/

theorem fits_negation {function : String} (h : Fits levels 4 e) (hp : place ≤ 4) :
    Fits (levels + 1) place (.call function [e] (some .not)) := by
  obtain ⟨text, ws, hspell, hspelled, hws⟩ := h
  exact spellsTo_of_le hp (by rw [spell, hspell]; rfl) (spelled_negation hspelled hws.starts)
    (.negation hp hws)

/-- Two sides with a sign of two characters between them. -/
private theorem fits_comparison {c d : Char} {kind : TokenKind} {left right : Expr}
    (hsign : Lexeme.pairKind? c d = some kind) (hkind : kind ∈ [.doubleEquals, .notEquals])
    (hthree : e.precedence = 3)
    (hspell : ∀ a b, left.spell = .ok a → right.spell = .ok b →
      e.spell = .ok (parenthesize 4 left a ++ [' ', c, d, ' '] ++ parenthesize 4 right b))
    (hl : Fits levels 4 left) (hr : Fits levels 4 right) : Fits (levels + 1) place e := by
  obtain ⟨a, ws, ha, hleft, hws⟩ := hl
  obtain ⟨b, ws', hb, hright, hws'⟩ := hr
  exact fits_succ (hspell a b ha hb) (spelled_comparison hsign hleft hright)
    (.comparison hthree.le hkind hws hws')

theorem fits_equality {function : String} {left right : Expr} (hl : Fits levels 4 left)
    (hr : Fits levels 4 right) :
    Fits (levels + 1) place (.call function [left, right] (some .eq)) := by
  refine fits_comparison (c := '=') (d := '=') rfl (by decide) rfl (fun a b ha hb => ?_) hl hr
  rw [spell, ha, hb]
  rfl

theorem fits_inequality {function other : String} {operator : Option Operator} {left right : Expr}
    (hl : Fits levels 4 left) (hr : Fits levels 4 right) :
    Fits (levels + 1) place
      (.call function [.call other [left, right] operator] (some .ne)) := by
  refine fits_comparison (c := '!') (d := '=') rfl (by decide) rfl (fun a b ha hb => ?_) hl hr
  rw [spell, ha, hb]
  rfl

/-- Operands with a sign between them. -/
private theorem exists_shallow_operands {operand : Nat} {args : List Expr} (hne : args ≠ [])
    (h : ∀ e ∈ args, Fits levels operand e) :
    ∃ texts wss, spellOperands operand args = .ok texts ∧ List.Forall₂ Spelled texts wss ∧
      wss ≠ [] ∧ ∀ ws ∈ wss, Shallow levels operand ws := by
  obtain ⟨texts, wss, hspell, hspelled, hwss⟩ := exists_spellOperands h
  refine ⟨texts, wss, hspell, hspelled, ?_, forall_mem_of_forall₂ hwss⟩
  rintro rfl
  cases hwss
  exact hne rfl

theorem fits_conjunction {function : String} {args : List Expr} (hne : args ≠ [])
    (h : ∀ e ∈ args, Fits levels 3 e) :
    Fits (levels + 1) place (.call function args (some .and)) := by
  obtain ⟨texts, wss, hspell, hspelled, hne, hwss⟩ := exists_shallow_operands hne h
  exact fits_succ (by rw [spell, hspell]; rfl) (spelled_conjunction hspelled)
    (.conjunction le_rfl hne hwss)

theorem fits_disjunction {function : String} {args : List Expr} (hne : args ≠ [])
    (h : ∀ e ∈ args, Fits levels 2 e) :
    Fits (levels + 1) place (.call function args (some .or)) := by
  obtain ⟨texts, wss, hspell, hspelled, hne, hwss⟩ := exists_shallow_operands hne h
  exact fits_succ (by rw [spell, hspell]; rfl) (spelled_disjunction hspelled)
    (.disjunction le_rfl hne hwss)

/-! ### Declarations -/

/-- The values in the spelling of a declaration nest no deeper than a number of levels. -/
def FitsDeclared (levels : Nat) (e : Expr) : Prop := SpellsTo 1 e (ShallowDeclaration levels)

private theorem spelled_keyword {x : String} (hx : isWord x.toList = true) :
    Spelled x.toList [.ident x] :=
  (spelled_word hx).imp fun _ => Ends.endsName

theorem fitsDeclared_condition {test : Expr} (h : Fits levels 1 test) :
    FitsDeclared levels (.condition test) := by
  obtain ⟨text, ws, hspell, hspelled, hws⟩ := h
  rw [parenthesize_of_le test.one_le_precedence] at hspelled
  exact spellsTo_of_le (one_le_precedence _) (by rw [spell, hspell]; rfl)
    ((spelled_keyword (by decide)).space_append hspelled) (.condition hws)

theorem fitsDeclared_body (kind : BodyKind) {fields : List (String × Expr)}
    (h : ∀ field ∈ fields, Fits levels 1 field.2) : FitsDeclared levels (.body kind fields) := by
  obtain ⟨texts, parts, hspell, hspelled, hparts⟩ := exists_shallowFields h
  have hword : isWord kind.keyword.toList = true := by cases kind <;> decide
  exact spellsTo_of_le (one_le_precedence _) (by rw [spell, hspell]; rfl)
    ((spelled_keyword hword).space_append hspelled) (.body kind hparts)

private theorem isType_typeWords (type : String) : IsType (typeWords type) := by
  unfold typeWords
  split_ifs
  · have hne := splitAtPair_ne_nil ':' ':' type.toList
    have hsegments := @IsType.segments ((splitAtPair ':' ':' type.toList).map String.ofList)
      (by simpa using hne)
    rwa [List.map_map] at hsegments
  · exact .string type

/-- The properties of a resource, if there are any. -/
private theorem exists_shallow_properties {properties : Option (List (String × Expr))}
    (h : ∀ fields ∈ properties, ∀ field ∈ fields, Fits levels 1 field.2) :
    ∃ text, ∃ parts : Option (List (Word × List Word)), spellProperties properties = .ok text ∧
      Spelled text ((parts.map objectWords).getD []) ∧ (∀ rest, Ends rest → Ends (text ++ rest)) ∧
      ∀ fields ∈ parts, ShallowFields levels fields := by
  cases properties with
  | none => exact ⟨[], none, rfl, spelled_nil, fun _ h => h, by simp⟩
  | some fields =>
    obtain ⟨texts, parts, hspell, hspelled, hparts⟩ := exists_shallowFields (h fields rfl)
    refine ⟨_, some parts, by rw [spellProperties, hspell]; rfl, hspelled.space,
      fun _ _ => ends_cons (by decide), by simpa using hparts⟩

theorem fitsDeclared_resource {type : String} {properties : Option (List (String × Expr))}
    {modifiers : List (String × Expr)}
    (hp : ∀ fields ∈ properties, ∀ field ∈ fields, Fits levels 1 field.2)
    (hm : ∀ m ∈ modifiers, m.1 ∈ modifierNames ∧ Fits levels 1 m.2) :
    FitsDeclared levels (.resource type properties modifiers) := by
  have hvalue (m : String × Expr) (hmem : m ∈ modifiers) :
      SpellsTo 1 m.2 fun ws => ShallowModifier levels (m.1, ws) :=
    SpellsTo.imp (hm m hmem).2 fun _ hws => ⟨(hm m hmem).1, hws⟩
  obtain ⟨ptext, fields, hpspell, hproperties, hpends, hfields⟩ := exists_shallow_properties hp
  obtain ⟨mtext, parts, hmspell, hmodifiers, hmends, hparts⟩ :=
    exists_spellModifiers hvalue fun m hmem => (hm m hmem).1
  have hkeyword : Spelled "Resource".toList [.ident "Resource"] := spelled_keyword (by decide)
  have htyped := (spelled_type type).append (hproperties.append hmodifiers hmends)
    fun rest hrest => by
      rw [List.append_assoc]
      exact hpends _ (hmends rest hrest)
  have hshallow : ∀ part ∈ parts, ShallowModifier levels part := by
    refine forall_mem_of_forall₂ (hparts.imp ?_)
    rintro m part ⟨hname, hpart⟩
    rwa [← hname] at hpart
  refine spellsTo_of_le (one_le_precedence _) ?_ (hkeyword.space_append htyped)
    (.resource (isType_typeWords type) hfields hshallow)
  rw [spell_resource, hpspell, hmspell]
  simp [bind, Except.bind, pure, Except.pure]

end Expr

/-! ### Statements and scripts -/

/-- The values in the spelling of a statement nest no deeper than a number of levels. -/
def Statement.Fits (levels : Nat) (st : Statement) : Prop :=
  ∃ text ws, st.spell = .ok text ∧ Spelled text ws ∧ ShallowStatement levels ws

namespace Statement

variable {levels : Nat} {e : Expr}

theorem fits_assign (name : String) (line : Nat) (h : e.FitsDeclared levels) :
    (assign name e line).Fits levels := by
  obtain ⟨text, ws, hspell, hspelled, hws⟩ := h
  rw [Expr.parenthesize_of_le e.one_le_precedence] at hspelled
  exact ⟨_, _, by rw [spell, hspell]; rfl, spelled_assign name hspelled,
    .assign (keyWord_kind name) hws⟩

/-- A header whose value is not in parentheses. -/
private theorem fits_header (kind : Header) (h : e.SpellsTo 1 fun ws =>
      Shallow (levels + 1) 1 ws ∧ ∀ w ∈ ws.head?, w.kind ≠ .lparen) :
    (header kind e).Fits levels := by
  obtain ⟨text, ws, hspell, hspelled, hws, hparen⟩ := h
  rw [Expr.parenthesize_of_le e.one_le_precedence] at hspelled
  exact ⟨_, _, by rw [spell, hspell]; rfl, spelled_header kind hspelled, .header kind hws hparen⟩

theorem fits_header_string (kind : Header) (s : String) :
    (header kind (.literal (.str s))).Fits levels :=
  fits_header kind (Expr.spellsTo_of_le (Expr.one_le_precedence _) rfl (spelled_string s)
    ⟨.literal (.inl (by simp)), by simp⟩)

theorem fits_header_array (kind : Header) {items : List Expr} (h : ∀ e ∈ items, e.Fits levels 1) :
    (header kind (.array items)).Fits levels :=
  fits_header kind ((Expr.spellsTo_array h (by decide)).imp fun _ ⟨_, hws, hwss⟩ =>
    hws ▸ ⟨.array hwss, by simp [Word.enclosed]⟩)

theorem fits_header_object (kind : Header) {fields : List (String × Expr)}
    (h : ∀ field ∈ fields, field.2.Fits levels 1) : (header kind (.object fields)).Fits levels :=
  fits_header kind ((Expr.spellsTo_object h (by decide)).imp fun _ ⟨_, hws, hparts⟩ =>
    hws ▸ ⟨.object hparts.keys hparts.values, by simp [objectWords, Word.enclosed]⟩)

end Statement

/-- The tokens of the spelling of statements that fit, also if more lines end after it. -/
theorem Template.exists_shallowScript {levels : Nat} {t : Template}
    (h : ∀ st ∈ t.statements, st.Fits levels) {raw gap : List Char} (hraw : t.spell = .ok raw)
    (hgap : ∀ c ∈ gap, c = '\n') :
    ∃ ts eof, TokenStream.ofText (raw ++ gap) = ⟨ts.map .ok, .ok eof⟩ ∧ eof.kind = .eof ∧
      ShallowScript levels ts := by
  obtain ⟨texts, wss, hspell, hspelled, hwss⟩ := exists_spell_statements h
  rw [Template.spell, hspell] at hraw
  obtain rfl := Except.ok.inj hraw
  obtain ⟨vs, hscan, hlines⟩ := exists_scan_of_spelled hspelled hgap
  obtain ⟨ts, eof, htext, heof, hplaced⟩ := TokenStream.ofText_of_scan hscan
  exact ⟨ts, eof, htext, congrArg Word.kind heof, wss, forall_mem_of_forall₂ hwss,
    ahead_eq_nil_iff.2 (hlines 1 ts hplaced).map_word⟩

end StackScript
