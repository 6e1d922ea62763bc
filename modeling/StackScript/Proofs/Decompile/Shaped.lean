import StackScript.Proofs.Decompile.Congruence
import StackScript.Proofs.Decompile.Documents
import StackScript.Proofs.Decompile.Inverse
import StackScript.Proofs.Spelling.Parts

/-!
# The form of what documents are read as

Values are read as expressions of few forms: names are bare only where they are identifiers that are
not reserved, calls and operators have the arguments they need, and nothing nests deeper than the
values do. Which literals and which keys there are depends on what is known of the values. This is
all that has to be known of an expression to tell that it is legible, has a spelling, nests little
and is read back.

## Main definitions

* `Decompile.Shaped`: the forms of expressions that values are read as.
* `Decompile.ShapedDeclaration`: the forms of declarations that entries of sections are read as.
* `Decompile.Determines`: what is known of values says which literals and keys there are.

## Main results

* `Decompile.Determines.shaped_of_readsAs`: values are read as expressions of these forms.
* `Decompile.Determines.shaped_of_declarationReads`: so are declarations.
* `Decompile.TemplateReads.forall_occurs`: what holds of these forms holds at any depth of the
  template of a document.
* `Decompile.Shaped.spellable`, `Decompile.Shaped.exists_spell`: which of them have a spelling.
-/

namespace StackScript.Decompile

open StackScript.Expr Text

/-! ### Names -/

/-- A name that starts like those of pseudo parameters is one. -/
theorem eq_pseudoName_of_isPseudo {x : String} (h : Expr.isPseudo x = true) :
    x = pseudoName (Expr.pseudoTail x) := by
  obtain ⟨rest, hrest⟩ := List.isPrefixOf_iff_prefix.1 h
  rw [← String.toList_inj, pseudoName, Expr.pseudoTail, String.toList_append, ← hrest,
    List.drop_left, String.toList_ofList]
  rfl

/-- The names that are written bare are read as names. -/
theorem isName_of_isBareName {x : String} (h : isBareName x = true) : IsName x := by
  have hword := isWord_of_isIdentifier (isIdentifier_of_isBareName h)
  rw [isBareName, Bool.and_eq_true, Bool.not_eq_true'] at h
  have hne {y : String} (hy : y ∈ reservedNames) : x ≠ y := by
    rintro rfl
    rw [List.contains_iff_mem.2 hy] at h
    cases h.2
  refine ⟨hword, ?_, hne (by decide), hne (by decide), ?_⟩
  · unfold Reader.keywordLiteral?
    split
    · exact absurd rfl (hne (by decide))
    · exact absurd rfl (hne (by decide))
    · exact absurd rfl (hne (by decide))
    · rfl
  · refine List.find?_eq_none.2 fun kind _ hkind => ?_
    have hreserved : kind.keyword ∈ reservedNames := by cases kind <;> decide
    exact hne hreserved (beq_iff_eq.1 hkind).symm

/-- The names that policies allow may be bare. -/
theorem isBareName_of_policyValues {modifier x : String}
    (h : ((policyValues? modifier).getD []).contains x = true) : isBareName x = true := by
  have hall : ∀ x ∈ ["Delete", "Retain", "RetainExceptOnCreate", "Snapshot"],
      isBareName x = true := by decide
  refine hall x ?_
  unfold policyValues? at h
  split at h
  · exact List.contains_iff_mem.1 h
  · have hsub : ["Delete", "Retain", "Snapshot"] ⊆
        ["Delete", "Retain", "RetainExceptOnCreate", "Snapshot"] := by decide
    exact hsub (List.contains_iff_mem.1 h)
  · simp at h

/-! ### Forms -/

section Forms

variable (literals : Scalar → Prop) (keys : List String → Prop)

/-- The forms of expressions that values are read as, which nest no deeper than a number of
levels. -/
inductive Shaped : Nat → Expr → Prop
  | literal {levels : Nat} {s : Scalar} (hs : literals s) : Shaped levels (.literal s)
  | name {levels : Nat} {x : String} (hx : isBareName x = true) : Shaped levels (.name x)
  | pseudo {levels : Nat} {attr : String} (ha : isWord attr.toList = true) :
      Shaped levels (.name (pseudoName attr))
  | member {levels : Nat} {x : String} {path : List String} (hx : isBareName x = true)
      (hne : path ≠ []) (hp : ∀ segment ∈ path, isWord segment.toList = true) :
      Shaped levels (.member (.name x) path)
  | bracket {levels : Nat} {x : String} {path : List String} (hx : isBareName x = true)
      (hne : path ≠ []) : Shaped levels (.bracket (.name x) path)
  | array {levels inner : Nat} {items : List Expr} (hl : inner < levels)
      (hi : ∀ e ∈ items, Shaped inner e) : Shaped levels (.array items)
  | object {levels inner : Nat} {fields : List (String × Expr)} (hl : inner < levels)
      (hk : keys (fields.map Prod.fst)) (hf : ∀ field ∈ fields, Shaped inner field.2) :
      Shaped levels (.object fields)
  | call {levels inner : Nat} {function : String} {args : List Expr} (hl : inner < levels)
      (hf : isBareName function = true) (href : function = "Ref" → ∃ s, args = [.literal (.str s)])
      (ha : ∀ e ∈ args, Shaped inner e) : Shaped levels (.call function args none)
  | negation {levels inner : Nat} {e : Expr} (hl : inner < levels) (h : Shaped inner e) :
      Shaped levels (.call "Not" [e] (some .not))
  | equality {levels inner : Nat} {left right : Expr} (hl : inner < levels)
      (h : Shaped inner left) (h' : Shaped inner right) :
      Shaped levels (.call "Equals" [left, right] (some .eq))
  | inequality {levels inner : Nat} {left right : Expr} (hl : inner < levels)
      (h : Shaped inner left) (h' : Shaped inner right) :
      Shaped levels (.call "Not" [.call "Equals" [left, right] none] (some .ne))
  | conjunction {levels inner : Nat} {args : List Expr} (hl : inner < levels)
      (hn : 2 ≤ args.length) (ha : ∀ e ∈ args, Shaped inner e) :
      Shaped levels (.call "And" args (some .and))
  | disjunction {levels inner : Nat} {args : List Expr} (hl : inner < levels)
      (hn : 2 ≤ args.length) (ha : ∀ e ∈ args, Shaped inner e) :
      Shaped levels (.call "Or" args (some .or))

/-- The properties of an object or of a declaration. -/
structure ShapedFields (levels : Nat) (fields : List (String × Expr)) : Prop where
  names : keys (fields.map Prod.fst)
  values : ∀ field ∈ fields, Shaped literals keys levels field.2

/-- The forms of declarations that entries of sections are read as. -/
inductive ShapedDeclaration (levels : Nat) : Expr → Prop
  | condition {e : Expr} (h : Shaped literals keys levels e) :
      ShapedDeclaration levels (.condition e)
  | body {kind : BodyKind} {fields : List (String × Expr)}
      (hf : ShapedFields literals keys levels fields) : ShapedDeclaration levels (.body kind fields)
  | resource {type : String} {properties : Option (List (String × Expr))}
      {modifiers : List (String × Expr)} (ht : type ≠ "")
      (hp : ∀ fields ∈ properties, ShapedFields literals keys levels fields)
      (hn : ∀ m ∈ modifiers, m.1 ∈ modifierNames) (hd : (modifiers.map Prod.fst).Nodup)
      (hm : ∀ m ∈ modifiers, Shaped literals keys levels m.2) :
      ShapedDeclaration levels (.resource type properties modifiers)

end Forms

variable {literals : Scalar → Prop} {keys : List String → Prop} {levels : Nat} {e : Expr}

/-- More levels do no harm. -/
theorem Shaped.mono {more : Nat} (h : Shaped literals keys levels e) (hle : levels ≤ more) :
    Shaped literals keys more e := by
  cases h with
  | literal hs => exact .literal hs
  | name hx => exact .name hx
  | pseudo ha => exact .pseudo ha
  | member hx hne hp => exact .member hx hne hp
  | bracket hx hne => exact .bracket hx hne
  | array hl hi => exact .array (hl.trans_le hle) hi
  | object hl hk hf => exact .object (hl.trans_le hle) hk hf
  | call hl hf href ha => exact .call (hl.trans_le hle) hf href ha
  | negation hl h => exact .negation (hl.trans_le hle) h
  | equality hl h h' => exact .equality (hl.trans_le hle) h h'
  | inequality hl h h' => exact .inequality (hl.trans_le hle) h h'
  | conjunction hl hn ha => exact .conjunction (hl.trans_le hle) hn ha
  | disjunction hl hn ha => exact .disjunction (hl.trans_le hle) hn ha

/-- The expressions right inside one of these forms have these forms. -/
theorem Shaped.of_mem_children (h : Shaped literals keys levels e) :
    ∀ e' ∈ e.children.map Prod.snd, Shaped literals keys levels e' := by
  cases h with
  | literal | name | pseudo => simp [children]
  | member hx | bracket hx => simpa [children] using Shaped.name hx
  | array hl hi =>
    rw [children_array_snd]
    exact fun e he => (hi e he).mono hl.le
  | object hl _ hf =>
    rw [children_object_snd]
    exact List.forall_mem_map.2 fun f h => (hf f h).mono hl.le
  | call hl _ _ ha | conjunction hl _ ha | disjunction hl _ ha =>
    rw [children_call_snd]
    exact fun e he => (ha e he).mono hl.le
  | negation hl h =>
    rw [children_call_snd]
    exact List.forall_mem_singleton.2 (h.mono hl.le)
  | equality hl h h' =>
    rw [children_call_snd]
    simp [h.mono hl.le, h'.mono hl.le]
  | inequality hl h h' =>
    rw [children_call_snd]
    exact List.forall_mem_singleton.2
      (.call hl (by decide) (fun h => absurd h (by decide)) (by simp [h, h']))

theorem ShapedDeclaration.of_mem_children (h : ShapedDeclaration literals keys levels e) :
    ∀ e' ∈ e.children.map Prod.snd, Shaped literals keys levels e' := by
  cases h with
  | condition h => simpa [children] using h
  | body hf =>
    rw [children_body_snd]
    exact List.forall_mem_map.2 hf.values
  | @resource _ properties _ _ hp _ _ hm =>
    rw [children_resource_snd, List.forall_mem_append, List.forall_mem_map, List.forall_mem_map]
    refine ⟨fun f hf => ?_, hm⟩
    cases properties with
    | none => cases hf
    | some fields => exact (hp fields rfl).values f hf

/-- What holds of all expressions of these forms holds of those in them. -/
theorem Shaped.forall_occurs {P : Expr → Prop} (h : Shaped literals keys levels e)
    (hP : ∀ {e}, Shaped literals keys levels e → P e) :
    ∀ place place' e', Occurs place e place' e' → P e' := by
  intro place place' e' hin
  induction hin with
  | self => exact hP h
  | inside hc _ ih => exact ih (h.of_mem_children _ (List.mem_map_of_mem hc))

/-! ### Spellings -/

namespace Shaped

/-- Where an expression has a spelling, so have its literals. -/
theorem spellable (h : Shaped (fun s => ∀ x, s = .float x → x.isFinite = true) keys levels e)
    (hs : ∃ text, e.spell = .ok text) : Shaped Scalar.IsSpellable keys levels e := by
  induction h with
  | @literal _ s hfinite =>
    rw [exists_spell_literal_iff] at hs
    refine .literal ?_
    cases s with
    | int n => exact hs n rfl
    | float x => exact hfinite x rfl
    | _ => trivial
  | name hx => exact .name hx
  | pseudo ha => exact .pseudo ha
  | member hx hne hp => exact .member hx hne hp
  | bracket hx hne => exact .bracket hx hne
  | array hl _ ih => exact .array hl fun e he => ih e he (exists_spell_array_iff.1 hs e he)
  | object hl hk _ ih => exact .object hl hk fun f hf => ih f hf (exists_spell_object_iff.1 hs f hf)
  | call hl hf href _ ih =>
    exact .call hl hf href fun e he => ih e he (exists_spell_plainCall_iff.1 hs e he)
  | negation hl _ ih =>
    rw [@exists_spell_call_iff _ _ (some .not) ⟨rfl, rfl⟩, List.forall_mem_singleton] at hs
    exact .negation hl (ih hs)
  | equality hl _ _ ih ih' =>
    rw [@exists_spell_call_iff _ _ (some .eq) ⟨rfl, rfl⟩] at hs
    exact .equality hl (ih (hs _ (by simp))) (ih' (hs _ (by simp)))
  | inequality hl _ _ ih ih' =>
    rw [@exists_spell_inequality_iff _ _ "Equals", @exists_spell_call_iff _ _ (some .eq) ⟨rfl, rfl⟩]
      at hs
    exact .inequality hl (ih (hs _ (by simp))) (ih' (hs _ (by simp)))
  | conjunction hl hn _ ih =>
    rw [@exists_spell_call_iff _ _ (some .and) ⟨rfl, hn⟩] at hs
    exact .conjunction hl hn fun e he => ih e he (hs e he)
  | disjunction hl hn _ ih =>
    rw [@exists_spell_call_iff _ _ (some .or) ⟨rfl, hn⟩] at hs
    exact .disjunction hl hn fun e he => ih e he (hs e he)

end Shaped

theorem ShapedDeclaration.spellable
    (h : ShapedDeclaration (fun s => ∀ x, s = .float x → x.isFinite = true) keys levels e)
    (hs : ∃ text, e.spell = .ok text) : ShapedDeclaration Scalar.IsSpellable keys levels e := by
  cases h with
  | condition h => exact .condition (h.spellable (exists_spell_condition_iff.1 hs))
  | body hf =>
    exact .body ⟨hf.names, fun f h => (hf.values f h).spellable (exists_spell_body_iff.1 hs f h)⟩
  | resource ht hp hn hd hm =>
    obtain ⟨hproperties, hmodifiers⟩ := exists_spell_resource_iff.1 hs
    refine .resource ht (fun fields hfields => ⟨(hp fields hfields).names, fun f hf => ?_⟩) hn hd
      fun m hmem => (hm m hmem).spellable (hmodifiers m hmem)
    obtain rfl := Option.mem_def.1 hfields
    exact ((hp fields rfl).values f hf).spellable (hproperties f hf)

theorem Shaped.hasOperands (h : Shaped literals keys levels e) : e.HasOperands := by
  cases h with
  | call _ _ href => exact href
  | negation | equality => exact ⟨rfl, rfl⟩
  | inequality => exact ⟨rfl, _, _, rfl⟩
  | conjunction _ hn | disjunction _ hn => exact ⟨rfl, hn⟩
  | _ => trivial

theorem ShapedDeclaration.hasOperands (h : ShapedDeclaration literals keys levels e) :
    e.HasOperands := by
  cases h <;> trivial

/-- An expression whose literals have a spelling has one. -/
theorem Shaped.exists_spell (h : Shaped Scalar.IsSpellable keys levels e) :
    ∃ text, e.spell = .ok text := by
  refine (exists_spell_iff_isWritable (h.forall_occurs hasOperands)).2 (h.forall_occurs ?_)
  rintro _ h n rfl
  cases h with
  | literal hs => exact hs

theorem ShapedDeclaration.exists_spell (h : ShapedDeclaration Scalar.IsSpellable keys levels e) :
    ∃ text, e.spell = .ok text := by
  refine (exists_spell_iff_children h.hasOperands).2 ⟨?_, fun e' he' => ?_⟩
  · rintro n rfl
    cases h
  · exact (h.of_mem_children e' he').exists_spell

/-! ### Values -/

/-- What is known of values is inherited, and says which literals and keys there are. -/
structure Determines (known : Value → Prop) (literals : Scalar → Prop)
    (keys : List String → Prop) : Prop extends Value.Inherits known where
  literal : ∀ {s : Scalar}, known (.scalar s) → (∀ x, s = .float x → x.isFinite = true) →
    literals s
  names : ∀ {entries : List (Value × Value)} {names : List String}, known (.map entries) →
    List.Forall₂ (fun entry name => entry.1.text? = some name) entries names → keys names

namespace Determines

variable {known : Value → Prop} (hd : Determines known literals keys) {symbols : SymbolTable}
  {scope : Scope} {v : Value}
include hd

theorem shaped_string (s : String) : Shaped literals keys levels (.literal (.str s)) :=
  .literal (hd.literal (hd.str s) (by simp))

omit hd in
theorem shaped_access {base first : Value} {more : List Value}
    (h : accessExpr? symbols base (first :: more) = some e) : Shaped literals keys levels e := by
  obtain ⟨resource, names, -, hnames, -, hbare, ⟨path, -, hpath, rfl⟩ | rfl⟩ :=
    accessExpr?_eq_some h
  · refine .member hbare ?_ (List.forall_mem_map.2 fun segment hs => ?_)
    · simpa using splitAtChar_ne_nil '.' path.toList
    · rw [String.toList_ofList]
      exact isWord_of_isIdentifier (List.all_eq_true.1 hpath segment hs)
  · refine .bracket hbare ?_
    rintro rfl
    cases hnames

theorem shaped_reference (x : String) :
    Shaped literals keys (levels + 1) (reference symbols x) := by
  unfold reference
  split_ifs with hpseudo hname
  · rw [Bool.and_eq_true] at hpseudo
    rw [eq_pseudoName_of_isPseudo hpseudo.1]
    exact .pseudo (isWord_of_isIdentifier hpseudo.2)
  · rw [Bool.and_eq_true] at hname
    exact .name hname.2
  · exact .call levels.lt_succ_self (by decide) (fun _ => ⟨x, rfl⟩)
      (List.forall_mem_singleton.2 (hd.shaped_string x))

theorem shaped_conditionReference {x : String} (h : known (.map [(.str "Condition", .str x)])) :
    Shaped literals keys (levels + 1) (conditionReference symbols x) := by
  unfold conditionReference
  split_ifs with hname
  · rw [Bool.and_eq_true] at hname
    exact .name hname.2
  · exact .object levels.lt_succ_self (hd.names h (.cons rfl .nil))
      (List.forall_mem_singleton.2 (hd.shaped_string x))

omit hd in
/-- The negation of an equality is an inequality of its sides. -/
theorem shaped_negation (h : Shaped literals keys levels e) :
    Shaped literals keys (levels + 1) (negation e) := by
  unfold negation
  split
  · cases h with
    | equality hl h h' => exact .inequality (Nat.lt_succ_of_lt hl) h h'
  · exact .negation levels.lt_succ_self h

section Calls

variable {inner : Value → Expr → Prop}
  (hinner : ∀ v e, known v → inner v e → Shaped literals keys levels e)
include hinner

omit hd in
private theorem shaped_of_forall₂ {vs : List Value} {es : List Expr} (hvs : ∀ v ∈ vs, known v)
    (h : List.Forall₂ inner vs es) : ∀ e ∈ es, Shaped literals keys levels e := by
  intro e he
  obtain ⟨v, hv, hread⟩ := exists_of_mem_right h he
  exact hinner v e (hvs v hv) hread

omit hd in
private theorem shaped_of_leading {declared : List String} {vs : List Value} {es : List Expr}
    (hvs : ∀ v ∈ vs, known v) (h : Leading declared inner vs es) :
    ∀ e ∈ es, Shaped literals keys levels e := by
  cases h with
  | nil => simp
  | name _ hb ho =>
    rw [List.forall_mem_cons] at hvs ⊢
    exact ⟨.name hb, shaped_of_forall₂ hinner hvs.2 ho⟩
  | value hf ho => exact shaped_of_forall₂ hinner hvs (.cons hf ho)

private theorem shaped_of_calling {function : String} {arg : Value} (harg : known arg)
    (hf : isBareName function = true) (href : function ≠ "Ref")
    (h : Calling symbols inner function arg e) : Shaped literals keys (levels + 1) e := by
  have hargs {args : List Value} (hv : arg.unfold = .list args) : ∀ v ∈ args, known v :=
    hd.items (hv ▸ hd.unfold harg)
  have hcall {args : List Expr} (ha : ∀ e ∈ args, Shaped literals keys levels e) :
      Shaped literals keys (levels + 1) (.call function args none) :=
    .call levels.lt_succ_self hf (fun h => absurd h href) ha
  cases h with
  | access _ he => exact shaped_access he
  | attributeCall hp hi =>
    refine hcall (shaped_of_forall₂ hinner ?_ hi)
    cases hp with
    | text => simp [hd.str]
    | list hv => exact hargs hv
  | @equals _ _ es hv hl hi =>
    obtain ⟨left, right, rfl⟩ := List.length_eq_two.1 (hi.length_eq.symm.trans hl)
    have hes := shaped_of_forall₂ hinner (hargs hv) hi
    exact .equality levels.lt_succ_self (hes left (by simp)) (hes right (by simp))
  | conjunction hv hl hi =>
    exact .conjunction levels.lt_succ_self (hl.trans hi.length_eq.le)
      (shaped_of_forall₂ hinner (hargs hv) hi)
  | disjunction hv hl hi =>
    exact .disjunction levels.lt_succ_self (hl.trans hi.length_eq.le)
      (shaped_of_forall₂ hinner (hargs hv) hi)
  | negation hv hi => exact shaped_negation (hinner _ _ (hargs hv _ (by simp)) hi)
  | lookup hv hi => exact hcall (shaped_of_leading hinner (hargs hv) hi)
  | choice hv _ hi => exact hcall (shaped_of_leading hinner (hargs hv) hi)
  | spread hv _ _ _ hi => exact hcall (shaped_of_forall₂ hinner (hargs hv) hi)
  | one _ _ _ hi => exact hcall (List.forall_mem_singleton.2 (hinner _ _ harg hi))

end Calls

omit hd in
private theorem forall₂_names {R : Value → Expr → Prop} {entries : List (Value × Value)}
    {fields : List (String × Expr)}
    (h : List.Forall₂ (fun entry field => entry.1.text? = some field.1 ∧ R entry.2 field.2)
      entries fields) :
    List.Forall₂ (fun entry name => entry.1.text? = some name) entries (fields.map Prod.fst) := by
  rw [List.forall₂_map_right_iff]
  exact h.imp fun _ _ hf => hf.1

/-- **Values are read as expressions of these forms**, which nest no deeper. -/
theorem shaped_of_readsAs (hv : known v) (h : ReadsAs symbols levels v e) :
    Shaped literals keys levels e := by
  induction levels generalizing v e with
  | zero => exact h.elim
  | succ levels ih =>
    have hunfold := hd.unfold hv
    cases h with
    | scalar hs hfinite => exact .literal (hd.literal (hs ▸ hunfold) hfinite)
    | list hs hi =>
      exact .array levels.lt_succ_self
        (shaped_of_forall₂ (fun _ _ => ih) (hd.items (hs ▸ hunfold)) hi)
    | object hs _ hi =>
      rw [hs] at hunfold
      refine .object levels.lt_succ_self (hd.names hunfold (forall₂_names hi)) fun field hf => ?_
      obtain ⟨entry, hentry, -, hread⟩ := exists_of_mem_right hi hf
      exact ih (hd.entries hunfold entry hentry).2 hread
    | reference => exact hd.shaped_reference _
    | conditionReference hs => exact hd.shaped_conditionReference (hs ▸ hunfold)
    | function hs hf hc =>
      obtain ⟨-, hbare, href⟩ := functionName?_eq_some hf
      exact hd.shaped_of_calling (fun _ _ => ih)
        (hd.entries (hs ▸ hunfold) _ List.mem_cons_self).2 hbare href hc

/-! ### Templates -/

theorem shaped_of_valueReads (hv : known v) (h : ValueReads scope v e) :
    Shaped literals keys scope.limit e := by
  obtain ⟨levels, hle, h⟩ := h
  exact (hd.shaped_of_readsAs hv h).mono hle

theorem shaped_of_fieldsRead {entries : List (Value × Value)} {fields : List (String × Expr)}
    (hv : known v) (hentries : v.unfold = .map entries) (h : FieldsRead scope entries fields) :
    ShapedFields literals keys (max scope.limit 1) fields := by
  have hknown : known (.map entries) := hentries ▸ hd.unfold hv
  refine ⟨hd.names hknown (forall₂_names h), fun field hf => ?_⟩
  obtain ⟨entry, hentry, -, hread⟩ := exists_of_mem_right h hf
  exact (hd.shaped_of_valueReads (hd.entries hknown entry hentry).2 hread).mono (le_max_left _ _)

theorem shaped_declaredName (x : String) :
    Shaped literals keys levels (declaredName symbols x) := by
  unfold declaredName
  split_ifs with hname
  · rw [Bool.and_eq_true] at hname
    exact .name hname.2
  · exact hd.shaped_string x

/-- The value of a modifier. A list of names takes one level, also if there is none. -/
theorem shaped_of_modifierReads {name : String} (hv : known v) (h : ModifierReads scope name v e) :
    Shaped literals keys (max scope.limit 1) e := by
  cases h with
  | policy _ hs => exact .name (isBareName_of_policyValues hs)
  | declared => exact hd.shaped_declaredName _
  | names =>
    exact .array (lt_max_of_lt_right Nat.one_pos)
      (List.forall_mem_map.2 fun x _ => hd.shaped_declaredName x)
  | value h => exact (hd.shaped_of_valueReads hv h).mono (le_max_left _ _)

/-- **Entries of sections are read as declarations of these forms.** -/
theorem shaped_of_declarationReads {kind : DeclKind} (hv : known v)
    (h : DeclarationReads scope kind v e) :
    ShapedDeclaration literals keys (max scope.limit 1) e := by
  cases h with
  | condition h => exact .condition ((hd.shaped_of_valueReads hv h).mono (le_max_left _ _))
  | body hs hf => exact .body (hd.shaped_of_fieldsRead hv hs hf)
  | @resource v entries type properties modifiers hs ht hne hp hm =>
    have hentries : known (.map entries) := hs ▸ hd.unfold hv
    have hnames := Value.map_fst_eq_of_forall₂ (hm.imp fun _ _ h => h.1)
    rw [map_fst_presentModifiers] at hnames
    refine .resource hne (fun fields hfields => ?_) (fun m hmem => ?_) (hnames ▸ ?_)
      fun m hmem => ?_
    · obtain rfl := Option.mem_def.1 hfields
      generalize hlookup : Value.lookup "Properties" entries = found at hp
      cases hp with
      | some h =>
        obtain ⟨inner, hinner, hf⟩ := h
        exact hd.shaped_of_fieldsRead (hd.lookup hentries hlookup) hinner hf
    · have hname : m.1 ∈ modifiers.map Prod.fst := List.mem_map_of_mem hmem
      rw [← hnames] at hname
      exact List.mem_of_mem_filter hname
    · exact List.Nodup.filter _ (by decide)
    · obtain ⟨p, hpresent, -, hread⟩ := exists_of_mem_right hm hmem
      exact hd.shaped_of_modifierReads (hd.lookup hentries (mem_presentModifiers hpresent).2) hread

/-- The value of a header. -/
theorem shaped_of_headerReads {kind : Header} (hv : known v) (h : HeaderReads scope kind v e) :
    Shaped literals keys (max scope.limit 1 + 1) e := by
  cases h with
  | string => exact hd.shaped_string _
  | strings =>
    exact .array (Nat.lt_succ_self _) (List.forall_mem_map.2 fun x _ => hd.shaped_string x)
  | mapping _ hs hf =>
    have hfields := hd.shaped_of_fieldsRead hv hs hf
    exact .object (Nat.lt_succ_self _) hfields.names hfields.values

/-- What holds of all headers and declarations that are read holds of the statements of a
template. -/
theorem forall_statements {t : Template} (h : TemplateReads scope t)
    (hv : known (.map scope.entries)) {P : Statement → Prop}
    (hheader : ∀ kind v e, known v → HeaderReads scope kind v e → P (.header kind e))
    (hassign : ∀ kind name v e, known v → DeclarationReads scope kind v e → P (.assign name e 0)) :
    ∀ st ∈ t.statements, P st := by
  obtain ⟨headers, sections, hstatements, hheaders, hsections⟩ := h
  intro st hst
  rw [hstatements, List.mem_append, List.mem_flatten] at hst
  obtain hst | ⟨sts, hsts, hst⟩ := hst
  · obtain ⟨p, hp, e, rfl, he⟩ := exists_of_mem_right hheaders hst
    obtain ⟨kind, -, hp⟩ := List.mem_filterMap.1 hp
    obtain ⟨v, hlookup, rfl⟩ := Option.map_eq_some_iff.1 hp
    exact hheader kind v e (hd.lookup hv hlookup) he
  · obtain ⟨kind, -, entries, hkind, hentries⟩ := exists_of_mem_right hsections hsts
    obtain ⟨entry, hentry, e, rfl, he⟩ := exists_of_mem_right hentries hst
    refine hassign kind entry.1 entry.2 e ?_ he
    cases hkind with
    | absent | null => cases hentry
    | mapping hlookup hs =>
      obtain ⟨given, hgiven, rfl⟩ := List.mem_map.1 hentry
      exact (hd.entries (hs ▸ hd.unfold (hd.lookup hv hlookup)) given hgiven).2

end Determines

/-- Of all values it is known that they have finite literals, if any. -/
theorem determines_finite : Determines (fun _ => True)
    (fun s => ∀ x, s = .float x → x.isFinite = true) fun _ => True where
  unfold := id
  items _ _ _ := trivial
  entries _ _ _ := ⟨trivial, trivial⟩
  str _ := trivial
  literal _ h := h
  names _ _ := trivial

/-- What holds of all expressions and declarations of these forms holds of those in a template that
is read from a document. -/
theorem TemplateReads.forall_occurs {scope : Scope} {t : Template} {P : Expr → Prop}
    (h : TemplateReads scope t)
    (hvalue : ∀ {levels e}, Shaped (fun s => ∀ x, s = .float x → x.isFinite = true)
      (fun _ => True) levels e → P e)
    (hdeclaration : ∀ {levels e}, ShapedDeclaration (fun s => ∀ x, s = .float x → x.isFinite = true)
      (fun _ => True) levels e → P e) :
    ∀ st ∈ t.statements, ∀ place place' e, Occurs place st.root.2 place' e → P e := by
  refine determines_finite.forall_statements h trivial (fun _ _ _ hv he => ?_)
    fun _ _ _ _ hv he => ?_
  · exact (determines_finite.shaped_of_headerReads hv he).forall_occurs hvalue
  · have hshaped := determines_finite.shaped_of_declarationReads hv he
    exact forall_occurs_iff.2 ⟨hdeclaration hshaped,
      fun e' he' => (hshaped.of_mem_children e' he').forall_occurs hvalue⟩

end StackScript.Decompile
