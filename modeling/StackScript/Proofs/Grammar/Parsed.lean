import StackScript.Proofs.Compile.Values
import StackScript.Proofs.Grammar.Readable

/-!
# Expressions that are read from a script

Of an expression that is read from a script less is known than that it can be read back: attributes
may be accessed of anything, and declarations may stand anywhere. Both are excluded as soon as the
expression has a value. What is known without this is that all names are words.

## Main definitions

* `Expr.literals`: the literals in an expression.
* `Expr.IsTextual`: every name in an expression is a word.
* `Expr.HasMeaning`: an expression is a name or has a value.
* `Parsed`: what is known of an expression that is read in a place, with a number of levels left.

## Main results

* `Parsed.grouped`, `Parsed.array`, `Parsed.call`, …: what is known of an expression that is put
  together from others.
-/

namespace StackScript

open Text Number

namespace Expr

/-! ### Literals -/

mutual

/-- The literals in an expression. -/
def literals : Expr → List Scalar
  | .literal s => [s]
  | .name _ => []
  | .object fields => fieldLiterals fields
  | .array items => allLiterals items
  | .member base _ => literals base
  | .bracket base _ => literals base
  | .call _ args _ => allLiterals args
  | .resource _ (some fields) modifiers => fieldLiterals fields ++ fieldLiterals modifiers
  | .resource _ none modifiers => fieldLiterals modifiers
  | .body _ fields => fieldLiterals fields
  | .condition test => literals test

/-- The literals in expressions. -/
def allLiterals : List Expr → List Scalar
  | [] => []
  | first :: others => literals first ++ allLiterals others

/-- The literals in the values of fields. -/
def fieldLiterals : List (String × Expr) → List Scalar
  | [] => []
  | (_, first) :: others => literals first ++ fieldLiterals others

end

theorem allLiterals_eq (es : List Expr) : allLiterals es = es.flatMap literals := by
  induction es with
  | nil => rfl
  | cons e es ih => rw [allLiterals, List.flatMap_cons, ih]

theorem fieldLiterals_eq (fields : List (String × Expr)) :
    fieldLiterals fields = fields.flatMap fun field => literals field.2 := by
  induction fields with
  | nil => rfl
  | cons field fields ih => rw [fieldLiterals, List.flatMap_cons, ih]

/-- All floating-point numbers in an expression are finite. -/
def IsFinite (e : Expr) : Prop := ∀ x, Scalar.float x ∈ e.literals → x.isFinite = true

theorem IsFinite.of_subset {e e' : Expr} (h : e.IsFinite) (hsub : e'.literals ⊆ e.literals) :
    e'.IsFinite := fun x hx => h x (hsub hx)

theorem literals_subset_array {items : List Expr} {e : Expr} (h : e ∈ items) :
    e.literals ⊆ (Expr.array items).literals := by
  rw [literals, allLiterals_eq]
  exact fun s hs => List.mem_flatMap.2 ⟨_, h, hs⟩

theorem literals_subset_call {function : String} {args : List Expr} {operator : Option Operator}
    {e : Expr} (h : e ∈ args) : e.literals ⊆ (Expr.call function args operator).literals := by
  rw [literals, allLiterals_eq]
  exact fun s hs => List.mem_flatMap.2 ⟨_, h, hs⟩

theorem literals_subset_object {fields : List (String × Expr)} {field : String × Expr}
    (h : field ∈ fields) : field.2.literals ⊆ (Expr.object fields).literals := by
  rw [literals, fieldLiterals_eq]
  exact fun s hs => List.mem_flatMap.2 ⟨_, h, hs⟩

/-! ### Names -/

/-- The names that can be written bare. -/
def IsBare (x : String) : Prop :=
  isWord x.toList = true ∨ ∃ attr, isWord attr.toList = true ∧ x = pseudoName attr

/-- Every name in an expression is a word. -/
inductive IsTextual : Expr → Prop
  | literal (s : Scalar) : IsTextual (.literal s)
  | name {x : String} (hx : IsBare x) : IsTextual (.name x)
  | object {fields : List (String × Expr)} (hf : ∀ field ∈ fields, IsTextual field.2) :
      IsTextual (.object fields)
  | array {items : List Expr} (hi : ∀ e ∈ items, IsTextual e) : IsTextual (.array items)
  | member {base : Expr} {path : List String} (hb : IsTextual base)
      (hp : ∀ segment ∈ path, isWord segment.toList = true) : IsTextual (.member base path)
  | bracket {base : Expr} {path : List String} (hb : IsTextual base) :
      IsTextual (.bracket base path)
  | call {function : String} {args : List Expr} {operator : Option Operator}
      (hf : operator = none → isWord function.toList = true) (ha : ∀ e ∈ args, IsTextual e) :
      IsTextual (.call function args operator)
  | resource {type : String} {properties : Option (List (String × Expr))}
      {modifiers : List (String × Expr)}
      (hp : ∀ fields, properties = some fields → ∀ field ∈ fields, IsTextual field.2)
      (hn : ∀ m ∈ modifiers, isWord m.1.toList = true) (hm : ∀ m ∈ modifiers, IsTextual m.2) :
      IsTextual (.resource type properties modifiers)
  | body {kind : BodyKind} {fields : List (String × Expr)}
      (hf : ∀ field ∈ fields, IsTextual field.2) : IsTextual (.body kind fields)
  | condition {test : Expr} (ht : IsTextual test) : IsTextual (.condition test)

/-! ### Values -/

/-- An expression is a name or has a value. -/
def HasMeaning (e : Expr) : Prop := (∃ x, e = .name x) ∨ ∃ symbols v, e.toValue symbols = .ok v

/-- An expression that is a declaration with a value. -/
def HasDeclaration (e : Expr) : Prop := ∃ symbols v, e.declarationValue symbols = .ok v

theorem hasMeaning_of_values {symbols : SymbolTable} {es : List Expr} {vs : List Value}
    (h : values symbols es = .ok vs) : ∀ e ∈ es, e.HasMeaning := by
  rw [values_eq_ok_iff] at h
  induction h with
  | nil => simp
  | cons he _ ih => exact List.forall_mem_cons.2 ⟨.inr ⟨symbols, _, he⟩, ih⟩

theorem hasMeaning_of_fieldValues {symbols : SymbolTable} {fields : List (String × Expr)}
    {vs : List (String × Value)} (h : fieldValues symbols fields = .ok vs) :
    ∀ field ∈ fields, field.2.HasMeaning := by
  rw [fieldValues_eq_ok_iff] at h
  induction h with
  | nil => simp
  | cons he _ ih => exact List.forall_mem_cons.2 ⟨.inr ⟨symbols, _, he.2⟩, ih⟩

/-- All arguments of a call that has a value are names or have values. -/
theorem hasMeaning_of_call {symbols : SymbolTable} {function : String} {args : List Expr}
    {operator : Option Operator} {v : Value} (href : function ≠ "Ref")
    (h : (Expr.call function args operator).toValue symbols = .ok v) :
    ∀ e ∈ args, e.HasMeaning := by
  cases args with
  | nil => simp
  | cons first others =>
    cases hhead : headName? symbols function first with
    | none =>
      rw [toValue_call href (by simpa using hhead), map_eq_ok_iff] at h
      obtain ⟨vs, hvs, -⟩ := h
      exact hasMeaning_of_values hvs
    | some plain =>
      rw [toValue_call_head href hhead] at h
      simp only [bind_eq_ok_iff] at h
      obtain ⟨x, -, vs, hvs, -⟩ := h
      refine List.forall_mem_cons.2 ⟨?_, hasMeaning_of_values hvs⟩
      unfold headName? at hhead
      split at hhead
      · exact .inl ⟨_, rfl⟩
      · cases hhead

theorem HasMeaning.of_array {items : List Expr} (h : (Expr.array items).HasMeaning) :
    ∀ e ∈ items, e.HasMeaning := by
  obtain ⟨x, hx⟩ | ⟨symbols, v, h⟩ := h
  · cases hx
  · simp only [toValue, bind_eq_ok_iff] at h
    obtain ⟨vs, hvs, -⟩ := h
    exact hasMeaning_of_values hvs

theorem HasMeaning.of_object {fields : List (String × Expr)} (h : (Expr.object fields).HasMeaning) :
    ∀ field ∈ fields, field.2.HasMeaning := by
  obtain ⟨x, hx⟩ | ⟨symbols, v, h⟩ := h
  · cases hx
  · simp only [toValue, bind_eq_ok_iff] at h
    obtain ⟨vs, hvs, -⟩ := h
    exact hasMeaning_of_fieldValues hvs

theorem HasMeaning.of_call {function : String} {args : List Expr} {operator : Option Operator}
    (href : function ≠ "Ref") (h : (Expr.call function args operator).HasMeaning) :
    ∀ e ∈ args, e.HasMeaning := by
  obtain ⟨x, hx⟩ | ⟨symbols, v, h⟩ := h
  · cases hx
  · exact hasMeaning_of_call href h

/-- Attributes are accessed of names only. -/
theorem exists_name_of_attributeBase {symbols : SymbolTable} {base : Expr} {x : String}
    (h : attributeBase symbols base = .ok x) : base = .name x := by
  unfold attributeBase at h
  split at h
  · split_ifs at h
    cases h
    rfl
  · cases h

theorem HasMeaning.of_member {base : Expr} {path : List String}
    (h : (Expr.member base path).HasMeaning) : ∃ x, base = .name x := by
  obtain ⟨x, hx⟩ | ⟨symbols, v, h⟩ := h
  · cases hx
  · simp only [toValue, bind_eq_ok_iff] at h
    obtain ⟨x, hx, -⟩ := h
    exact ⟨x, exists_name_of_attributeBase hx⟩

theorem HasMeaning.of_bracket {base : Expr} {path : List String}
    (h : (Expr.bracket base path).HasMeaning) : ∃ x, base = .name x := by
  obtain ⟨x, hx⟩ | ⟨symbols, v, h⟩ := h
  · cases hx
  · simp only [toValue, bind_eq_ok_iff] at h
    obtain ⟨x, hx, -⟩ := h
    exact ⟨x, exists_name_of_attributeBase hx⟩

theorem not_hasDeclaration {e : Expr} (h : e.isDeclaration = false) : ¬ e.HasDeclaration := by
  rintro ⟨symbols, v, hv⟩
  cases e <;> first | cases hv | cases h

theorem not_hasMeaning {e : Expr} (h : e.isDeclaration = true) : ¬ e.HasMeaning := by
  rintro (⟨x, rfl⟩ | ⟨symbols, v, hv⟩)
  · cases h
  · cases e with
    | resource => simp [toValue] at hv
    | body => simp [toValue] at hv
    | condition => simp [toValue] at hv
    | _ => cases h

theorem hasMeaning_of_modifierValues {symbols : SymbolTable} {modifiers : List (String × Expr)}
    {vs : List (String × Value)} (h : modifierValues symbols modifiers = .ok vs) :
    ∀ m ∈ modifiers, m.2.HasMeaning := by
  induction modifiers generalizing vs with
  | nil => simp
  | cons m modifiers ih =>
    simp only [modifierValues, bind_eq_ok_iff] at h
    obtain ⟨v, hv, vs, hvs, -⟩ := h
    refine List.forall_mem_cons.2 ⟨?_, ih hvs⟩
    unfold modifierValue at hv
    split at hv
    · exact .inl ⟨_, ‹_›⟩
    · split_ifs at hv
      · obtain ⟨w, hw, -⟩ := map_eq_ok_iff.1 hv
        exact .inr ⟨symbols, w, hw⟩
      · exact .inr ⟨symbols, v, hv⟩

theorem exists_of_resourceValue {symbols : SymbolTable} {type : String}
    {properties : Option (List (String × Expr))} {modifiers : List (String × Expr)} {v : Value}
    (h : resourceValue symbols type properties modifiers = .ok v) :
    (∀ fields, properties = some fields → ∃ ws, fieldValues symbols fields = .ok ws) ∧
      ∃ vs, modifierValues symbols modifiers = .ok vs := by
  cases properties with
  | none =>
    simp only [resourceValue, bind_eq_ok_iff] at h
    obtain ⟨_, -, vs, hvs, -⟩ := h
    exact ⟨nofun, vs, hvs⟩
  | some fields =>
    simp only [resourceValue, bind_eq_ok_iff] at h
    obtain ⟨ws, hws, _, -, vs, hvs, -⟩ := h
    refine ⟨fun fields' hf => ?_, vs, hvs⟩
    cases hf
    exact ⟨ws, hws⟩

end Expr

/-! ### What is known of an expression that is read -/

/-- What is known of an expression that is read in a place, with a number of nesting levels left. -/
structure Parsed (levels place : Nat) (e : Expr) : Prop where
  textual : e.IsTextual
  readable : e.IsFinite → e.HasMeaning → Readable levels place e
  declared : e.IsFinite → e.HasDeclaration → Declared levels e

/-- What is known of an expression that is read one level further in. -/
def ParsedInside (levels : Nat) (e : Expr) : Prop := 0 < levels ∧ Parsed (levels - 1) 1 e

namespace Parsed

variable {levels more place other : Nat} {e : Expr}

theorem mono (h : Parsed levels place e) (hle : levels ≤ more) : Parsed more place e :=
  ⟨h.textual, fun hf hm => (h.readable hf hm).mono hle, fun hf hd => (h.declared hf hd).mono hle⟩

theorem lower (h : Parsed levels place e) (hle : other ≤ place) : Parsed levels other e :=
  ⟨h.textual, fun hf hm => (h.readable hf hm).lower hle, h.declared⟩

/-- An expression in parentheses. -/
theorem grouped (h : ParsedInside levels e) : Parsed levels place e where
  textual := h.2.textual
  readable hf hm := (h.2.readable hf hm).operand h.1
  declared hf hd := (h.2.declared hf hd).mono (Nat.sub_le ..)

/-- An expression that is no declaration. -/
theorem of_value (hd : e.isDeclaration = false) (ht : e.IsTextual)
    (hr : e.IsFinite → e.HasMeaning → Readable levels place e) : Parsed levels place e :=
  ⟨ht, hr, fun _ h => absurd h (Expr.not_hasDeclaration hd)⟩

theorem literal {s : Scalar} (hs : ∀ n, s = .int n → (writeInt? n).isSome = true) :
    Parsed levels place (.literal s) := by
  refine of_value rfl (.literal s) fun hf _ => .literal ?_
  cases s with
  | int n => exact hs n rfl
  | float x => exact hf x (by simp [Expr.literals])
  | _ => trivial

theorem name {x : String} (hx : IsName x) : Parsed levels place (.name x) :=
  of_value rfl (.name (.inl hx.word)) fun _ _ => .name hx

theorem pseudo {attr : String} (ha : isWord attr.toList = true) :
    Parsed levels place (.name (pseudoName attr)) :=
  of_value rfl (.name (.inr ⟨attr, ha, rfl⟩)) fun _ _ => .pseudo ha

theorem object {fields : List (String × Expr)} (hkeys : (fields.map Prod.fst).Nodup)
    (h : ∀ field ∈ fields, ParsedInside levels field.2) :
    Parsed levels place (.object fields) := by
  refine of_value rfl (.object fun f hf => (h f hf).2.textual) fun hfin hm => ?_
  refine .object hkeys (fun hne => ?_) fun f hf => (h f hf).2.readable ?_ (hm.of_object f hf)
  · obtain ⟨f, hf⟩ := List.exists_mem_of_ne_nil _ hne
    exact (h f hf).1
  · exact hfin.of_subset (Expr.literals_subset_object hf)

theorem array {items : List Expr} (h : ∀ e ∈ items, ParsedInside levels e) :
    Parsed levels place (.array items) := by
  refine of_value rfl (.array fun e he => (h e he).2.textual) fun hfin hm => ?_
  refine .array (fun hne => ?_) fun e he => (h e he).2.readable ?_ (hm.of_array e he)
  · obtain ⟨e, he⟩ := List.exists_mem_of_ne_nil _ hne
    exact (h e he).1
  · exact hfin.of_subset (Expr.literals_subset_array he)

theorem call {function : String} {args : List Expr} (hf : IsName function)
    (href : function = "Ref" → ∃ s, args = [.literal (.str s)])
    (h : ∀ e ∈ args, ParsedInside levels e) : Parsed levels place (.call function args none) := by
  refine of_value rfl (.call (fun _ => hf.word) fun e he => (h e he).2.textual) fun hfin hm => ?_
  refine .call hf href (fun hne => ?_) fun e he => (h e he).2.readable ?_ ?_
  · obtain ⟨e, he⟩ := List.exists_mem_of_ne_nil _ hne
    exact (h e he).1
  · exact hfin.of_subset (Expr.literals_subset_call he)
  · by_cases hname : function = "Ref"
    · obtain ⟨s, rfl⟩ := href hname
      rw [List.mem_singleton.1 he]
      exact .inr ⟨{}, .str s, rfl⟩
    · exact hm.of_call hname e he

theorem negation (h : Parsed (levels - 1) 4 e) (hl : 0 < levels) :
    Parsed levels 4 (.call "Not" [e] (some .not)) := by
  refine of_value rfl (.call nofun (by simpa using h.textual)) fun hfin hm => ?_
  refine .negation le_rfl hl (h.readable (hfin.of_subset ?_) (hm.of_call (by decide) e (by simp)))
  exact Expr.literals_subset_call (by simp)

theorem equality {left right : Expr} (hl : Parsed levels 4 left) (hr : Parsed levels 4 right) :
    Parsed levels 3 (.call "Equals" [left, right] (some .eq)) := by
  refine of_value rfl (.call nofun (by simp [hl.textual, hr.textual])) fun hfin hm => ?_
  have hm := hm.of_call (by decide)
  exact .equality le_rfl
    (hl.readable (hfin.of_subset (Expr.literals_subset_call (by simp))) (hm _ (by simp)))
    (hr.readable (hfin.of_subset (Expr.literals_subset_call (by simp))) (hm _ (by simp)))

theorem inequality {left right : Expr} (hl : Parsed levels 4 left) (hr : Parsed levels 4 right) :
    Parsed levels 3 (.call "Not" [.call "Equals" [left, right] none] (some .ne)) := by
  have hinner : (Expr.call "Equals" [left, right] none).IsTextual :=
    .call (fun _ => by decide) (by simp [hl.textual, hr.textual])
  refine of_value rfl (.call nofun (by simpa using hinner)) fun hfin hm => ?_
  have hm := (hm.of_call (by decide) _ (List.mem_singleton.2 rfl)).of_call (by decide)
  have hfin := hfin.of_subset (Expr.literals_subset_call (List.mem_singleton.2 rfl))
  exact .inequality le_rfl
    (hl.readable (hfin.of_subset (Expr.literals_subset_call (by simp))) (hm _ (by simp)))
    (hr.readable (hfin.of_subset (Expr.literals_subset_call (by simp))) (hm _ (by simp)))

theorem conjunction {args : List Expr} (hn : 2 ≤ args.length) (h : ∀ e ∈ args, Parsed levels 3 e) :
    Parsed levels 2 (.call "And" args (some .and)) := by
  refine of_value rfl (.call nofun fun e he => (h e he).textual) fun hfin hm => ?_
  refine .conjunction le_rfl hn fun e he => (h e he).readable (hfin.of_subset ?_)
    (hm.of_call (by decide) e he)
  exact Expr.literals_subset_call he

theorem disjunction {args : List Expr} (hn : 2 ≤ args.length) (h : ∀ e ∈ args, Parsed levels 2 e) :
    Parsed levels 1 (.call "Or" args (some .or)) := by
  refine of_value rfl (.call nofun fun e he => (h e he).textual) fun hfin hm => ?_
  refine .disjunction le_rfl hn fun e he => (h e he).readable (hfin.of_subset ?_)
    (hm.of_call (by decide) e he)
  exact Expr.literals_subset_call he

/-- The access of an attribute. -/
theorem member {attr : String} (h : Parsed levels 4 e) (ha : isWord attr.toList = true)
    (hbase : ∀ x, e = .name x → x ≠ Expr.pseudoBase ∧ Expr.isPseudo x = false) :
    Parsed levels 4 (.member e [attr]) := by
  refine of_value rfl (.member h.textual (by simpa using ha)) fun hfin hm => ?_
  obtain ⟨x, rfl⟩ := hm.of_member
  have hname := h.readable (hfin.of_subset (by simp [Expr.literals])) (.inl ⟨x, rfl⟩)
  obtain ⟨hne, hpseudo⟩ := hbase x rfl
  cases hname with
  | name hx => exact .member hx hne (by simp) (by simpa using ha)
  | pseudo => simp [isPseudo_pseudoName] at hpseudo
  | grouped hp => exact absurd hp (by simp [Expr.precedence])

/-- The access of an attribute of an attribute. -/
theorem member_append {attr : String} {path : List String} (h : Parsed levels 4 (.member e path))
    (ha : isWord attr.toList = true) : Parsed levels 4 (.member e (path ++ [attr])) := by
  have hpath {segment : String} (hp : ∀ s ∈ path, isWord s.toList = true)
      (hs : segment ∈ path ++ [attr]) : isWord segment.toList = true := by
    rcases List.mem_append.1 hs with hs | hs
    · exact hp segment hs
    · rwa [List.mem_singleton.1 hs]
  refine of_value rfl ?_ fun hfin hm => ?_
  · cases h.textual with
    | member hb hp => exact .member hb fun _ => hpath hp
  · have hm' : (Expr.member e path).HasMeaning := by
      obtain ⟨x, hx⟩ | ⟨symbols, v, hv⟩ := hm
      · cases hx
      · simp only [Expr.toValue, bind_eq_ok_iff] at hv
        obtain ⟨x, hx, -⟩ := hv
        exact .inr ⟨symbols, _, by simp only [Expr.toValue, hx]; rfl⟩
    have hmember := h.readable (hfin.of_subset (by simp [Expr.literals])) hm'
    cases hmember with
    | member hx hbase hne hp => exact .member hx hbase (by simp) fun _ => hpath hp
    | grouped hp => exact absurd hp (by simp [Expr.precedence])

/-- The access of attributes in brackets. -/
theorem bracket {path : List String} (h : Parsed levels 4 e) (hne : path ≠ []) :
    Parsed levels 4 (.bracket e path) := by
  refine of_value rfl (.bracket h.textual) fun hfin hm => ?_
  obtain ⟨x, rfl⟩ := hm.of_bracket
  exact .bracket (h.readable (hfin.of_subset (by simp [Expr.literals])) (.inl ⟨x, rfl⟩)) hne

/-- An expression that is a declaration. -/
theorem of_declaration (hd : e.isDeclaration = true) (ht : e.IsTextual)
    (hr : e.IsFinite → e.HasDeclaration → Declared levels e) : Parsed levels place e :=
  ⟨ht, fun _ h => absurd h (Expr.not_hasMeaning hd), hr⟩

theorem condition (h : ParsedInside levels e) : Parsed levels place (.condition e) := by
  refine of_declaration rfl (.condition h.2.textual) fun hfin ⟨symbols, v, hv⟩ => ?_
  exact .condition h.1 (h.2.readable (hfin.of_subset (by simp [Expr.literals]))
    (.inr ⟨symbols, v, hv⟩))

theorem body {kind : BodyKind} {fields : List (String × Expr)}
    (h : Parsed levels 4 (.object fields)) : Parsed levels place (.body kind fields) := by
  refine of_declaration rfl ?_ fun hfin ⟨symbols, v, hv⟩ => ?_
  · cases h.textual with
    | object hf => exact .body hf
  · exact .body (h.readable (hfin.of_subset (by simp [Expr.literals])) (.inr ⟨symbols, v, hv⟩))

/-- Modifiers are named by words. -/
theorem isWord_of_modifierNames {name : String} (h : modifierNames.contains name = true) :
    isWord name.toList = true := by
  have hall : ∀ name ∈ modifierNames, isWord name.toList = true := by decide
  exact hall name (List.contains_iff_mem.1 h)

theorem resource {type : String} {properties : Option (List (String × Expr))}
    {modifiers : List (String × Expr)} (ht : type ≠ "")
    (hp : ∀ fields, properties = some fields → Parsed levels 4 (.object fields))
    (hnames : ∀ m ∈ modifiers, modifierNames.contains m.1 = true)
    (hkeys : (modifiers.map Prod.fst).Nodup) (hm : ∀ m ∈ modifiers, ParsedInside levels m.2)
    (hpolicy : ∀ m ∈ modifiers, ∀ allowed x, policyValues? m.1 = some allowed → m.2 = .name x →
      allowed.contains x = true) :
    Parsed levels place (.resource type properties modifiers) := by
  refine of_declaration rfl (.resource (fun fields h => ?_)
    (fun m h => isWord_of_modifierNames (hnames m h)) fun m h => (hm m h).2.textual)
    fun hfin ⟨symbols, v, hv⟩ => ?_
  · cases (hp fields h).textual with
    | object hf => exact hf
  · obtain ⟨hbody, vs, hvs⟩ := Expr.exists_of_resourceValue hv
    have hmeaning := Expr.hasMeaning_of_modifierValues hvs
    refine .resource ht (fun fields h => ?_) hnames hkeys (fun hne => ?_)
      (fun m h => (hm m h).2.readable (hfin.of_subset ?_) (hmeaning m h)) hpolicy
    · obtain ⟨ws, hws⟩ := hbody fields h
      subst h
      refine (hp fields rfl).readable (hfin.of_subset ?_) (.inr ⟨symbols, Value.ofFields ws, ?_⟩)
      · simp [Expr.literals]
      · simp only [Expr.toValue, hws]
        rfl
    · obtain ⟨m, h⟩ := List.exists_mem_of_ne_nil _ hne
      exact (hm m h).1
    · have hsub := Expr.literals_subset_object h
      rw [Expr.literals] at hsub
      cases properties with
      | none => rwa [Expr.literals]
      | some fields =>
        rw [Expr.literals]
        exact List.subset_append_of_subset_right _ hsub

end Parsed

end StackScript
