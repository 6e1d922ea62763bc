import StackScript.Proofs.Layout.Objects
import StackScript.Proofs.Number.Positional
import StackScript.Proofs.Spelling.Legible

/-!
# Spelled expressions are code

The spelling of a legible expression has the form that the layout takes apart correctly, by
induction on the expression: names, numbers and operators are plain, strings are in quotes, and
arguments, items and properties stand in brackets with commas between them.

## Main definitions

* `Layout.IsPhrase`: code that neither starts nor ends with a blank.

## Main results

* `Layout.isPhrase_spell`: the spelling of a legible expression is such code.
* `Layout.respaced_layout`: the layout of a script is a respaced version of it.
-/

namespace StackScript.Layout

open Text Number

/-- Code that neither starts nor ends with a blank. -/
structure IsPhrase (text : List Char) : Prop where
  code : Code text
  tight : IsTight text

namespace IsPhrase

variable {a b : List Char}

/-- Characters that are plain and no blanks. -/
theorem of_ink (hne : a ≠ []) (h : ∀ c ∈ a, isPlain c = true ∧ c ≠ ' ') : IsPhrase a where
  code := code_of_all_isPlain (List.all_eq_true.2 fun c hc => (h c hc).1)
  tight := by
    have hink (c : Char) (hc : c ∈ a) : isBlank c = false :=
      isBlank_eq_false_of_isPlain (h c hc).1 (h c hc).2
    exact ⟨⟨_, List.head?_eq_some_head hne, hink _ (List.head_mem hne)⟩, _,
      List.getLast?_eq_some_getLast hne, hink _ (List.getLast_mem hne)⟩

theorem word (h : isWord a = true) : IsPhrase a :=
  ⟨code_of_all_isPlain (all_isPlain_of_isWord h), isTight_of_isWord h⟩

theorem string (s : String) : IsPhrase (quoteString s.toList) :=
  ⟨code_quoteString s, isTight_quoteString _⟩

theorem key (key : String) : IsPhrase (spellKey key.toList) := by
  unfold spellKey
  split_ifs with h
  · exact word (isWord_of_isIdentifier h)
  · exact string key

/-- Texts in brackets, with commas between them. -/
theorem group {l r : Char} (hb : (l, r) ∈ [('(', ')'), ('[', ']')]) {texts : List (List Char)}
    (h : ∀ text ∈ texts, Code text) : IsPhrase (l :: Expr.commas texts ++ [r]) where
  code := .group hb h .nil
  tight := by
    have hink : ∀ b ∈ [('(', ')'), ('[', ']')], isBlank b.1 = false ∧ isBlank b.2 = false := by
      decide
    exact (isTight_singleton (hink _ hb).1).append (isTight_singleton (hink _ hb).2) _

/-- Properties in braces. -/
theorem object {fields : List (String × List Char)} (h : ∀ field ∈ fields, IsPhrase field.2) :
    IsPhrase (objectText fields) where
  code := by
    simpa using Code.object (fun field hf => (h field hf).code) (fun field hf => (h field hf).tight)
      .nil
  tight := by
    rw [objectText_eq]
    exact (isTight_singleton (by decide)).append (isTight_singleton (by decide)) _

/-- Two texts with plain characters between them. -/
theorem join (ha : IsPhrase a) {m : List Char} (hm : m.all isPlain = true) (hb : IsPhrase b) :
    IsPhrase (a ++ m ++ b) :=
  ⟨(ha.code.append (code_of_all_isPlain hm)).append hb.code, ha.tight.append hb.tight m⟩

theorem append (ha : IsPhrase a) (hb : IsPhrase b) : IsPhrase (a ++ b) := by
  simpa using ha.join (m := []) rfl hb

/-- A text after a sign. -/
theorem sign {c : Char} (hc : isPlain c = true) (hne : c ≠ ' ') (h : IsPhrase a) :
    IsPhrase (c :: a) :=
  append (a := [c]) (of_ink (by simp) (by simpa using ⟨hc, hne⟩)) h

theorem intercalate {m : List Char} (hm : m.all isPlain = true) {texts : List (List Char)}
    (hne : texts ≠ []) (h : ∀ text ∈ texts, IsPhrase text) :
    IsPhrase (List.intercalate m texts) := by
  induction texts with
  | nil => exact absurd rfl hne
  | cons text texts ih =>
    rw [List.forall_mem_cons] at h
    cases texts with
    | nil => simpa using h.1
    | cons text' texts =>
      rw [List.intercalate_cons_cons]
      exact h.1.join hm (ih (by simp) h.2)

theorem parenthesize {place : Nat} {e : Expr} (h : IsPhrase a) :
    IsPhrase (Expr.parenthesize place e a) := by
  unfold Expr.parenthesize
  split_ifs
  · have hcode : ∀ text ∈ [a], Code text := by simpa using h.code
    simpa [Expr.commas] using group (l := '(') (r := ')') (by simp) hcode
  · exact h

end IsPhrase

/-! ### Numbers and names -/

private theorem ink_of_isDigit {c : Char} (h : isDigit c = true) : isPlain c = true ∧ c ≠ ' ' := by
  refine ⟨?_, ?_⟩
  · rw [isPlain, isIdentifierPart, h, Bool.or_true, Bool.true_or]
  · rintro rfl
    exact absurd h (by decide)

private theorem isPhrase_signed {negative : Bool} {a : List Char} (h : IsPhrase a) :
    IsPhrase (Double.signed negative a) := by
  cases negative with
  | false => exact h
  | true => exact h.sign (by decide) (by decide)

theorem isPhrase_positional (x : Double) : IsPhrase x.positional := by
  cases x with
  | finite negative mantissa exponent h =>
    obtain ⟨whole, fraction, htext, hne, -, hdigits, -⟩ :=
      Double.exists_positionalText (Double.shortest mantissa exponent).1
        (Double.shortest mantissa exponent).2
    rw [List.forall_mem_append] at hdigits
    refine isPhrase_signed (htext ▸ .of_ink (by simp) ?_)
    rw [List.forall_mem_append, List.forall_mem_cons]
    exact ⟨fun c hc => ink_of_isDigit (hdigits.1 c hc), by decide,
      fun c hc => ink_of_isDigit (hdigits.2 c hc)⟩
  | infinite negative => exact isPhrase_signed (.of_ink (by decide) (forall_mem_of_all (by decide)))
  | undefined => exact .of_ink (by decide) (forall_mem_of_all (by decide))

theorem isPhrase_spellScalar {value : Scalar} {text : List Char}
    (h : spellScalar value = .ok text) : IsPhrase text := by
  rcases value with _ | (_ | _) | n | x | s
  · cases h
    exact .word (by decide)
  · cases h
    exact .word (by decide)
  · cases h
    exact .word (by decide)
  · simp only [spellScalar, spellInt, writeInt?] at h
    split_ifs at h
    cases h
    have hdigits (k : Nat) : IsPhrase (natText k) :=
      .of_ink (natText_ne_nil k) fun c hc => ink_of_isDigit (isDigit_of_mem_natText hc)
    cases n with
    | ofNat k => exact hdigits k
    | negSucc k => exact (hdigits (k + 1)).sign (by decide) (by decide)
  · rw [spellScalar_float] at h
    cases h
    exact isPhrase_positional x
  · cases h
    exact .string s

theorem isPhrase_spellName {x : String} (h : Expr.IsBare x) : IsPhrase (Expr.spellName x) := by
  unfold Expr.spellName
  obtain hx | ⟨attr, hattr, rfl⟩ := h
  · rw [if_neg (by simp [Reader.isPseudo_eq_false_of_isWord hx])]
    exact .word hx
  · rw [if_pos (isPseudo_pseudoName attr), pseudoTail_pseudoName]
    exact (IsPhrase.word (by decide)).append ((IsPhrase.word hattr).sign (by decide) (by decide))

theorem isPhrase_spellType (type : String) : IsPhrase (Expr.spellType type) := by
  unfold Expr.spellType
  split_ifs with hbare
  · rw [← intercalate_splitAtPair ':' ':' type.toList]
    refine .intercalate (by decide) (splitAtPair_ne_nil _ _ _) fun part hpart => ?_
    exact .word (isWord_of_isIdentifier (List.all_eq_true.1 hbare part hpart))
  · exact .string type

/-- The segments of a path after a point. -/
private theorem isPhrase_dotted {path : List String}
    (h : ∀ segment ∈ path, isWord segment.toList = true) :
    IsPhrase ('.' :: (".".intercalate path).toList) := by
  by_cases hne : path = []
  · subst hne
    exact .of_ink (by decide) (forall_mem_of_all (by decide))
  · rw [String.toList_intercalate]
    refine IsPhrase.sign (by decide) (by decide) (.intercalate (by decide) (by simpa using hne) ?_)
    exact List.forall_mem_map.2 fun segment hs => .word (h segment hs)

/-! ### Lists of parts -/

section Parts

variable {es : List Expr} {fields : List (String × Expr)} {texts : List (List Char)}

private theorem isPhrase_of_mapM {α : Type} {f : α → Except SpellFault (List Char)} {l : List α}
    (h : l.mapM f = .ok texts) (hf : ∀ a ∈ l, ∀ text, f a = .ok text → IsPhrase text) :
    ∀ text ∈ texts, IsPhrase text := by
  rw [mapM_eq_ok_iff] at h
  induction h with
  | nil => simp
  | cons ha _ ih =>
    rw [List.forall_mem_cons] at hf ⊢
    exact ⟨hf.1 _ ha, ih hf.2⟩

private theorem isPhrase_spellOperands {place : Nat}
    (h : Expr.spellOperands place es = .ok texts)
    (he : ∀ e ∈ es, ∀ text, e.spell = .ok text → IsPhrase text) :
    ∀ text ∈ texts, IsPhrase text := by
  rw [Expr.spellOperands_eq_mapM] at h
  refine isPhrase_of_mapM h fun e hmem text htext => ?_
  obtain ⟨inner, hinner, rfl⟩ := map_eq_ok_iff.1 htext
  exact (he e hmem inner hinner).parenthesize

/-- The text of an object. -/
private theorem isPhrase_braces (h : Expr.spellFields fields = .ok texts)
    (he : ∀ f ∈ fields, ∀ text, f.2.spell = .ok text → IsPhrase text) :
    IsPhrase (Expr.braces texts) := by
  obtain ⟨values, rfl, hvalues⟩ := Expr.exists_values_of_spellFields h
  refine .object fun v hv => ?_
  obtain ⟨f, hf, -, htext⟩ := exists_of_mem_right hvalues hv
  exact he f hf v.2 htext

/-- Modifiers after a text. -/
private theorem isPhrase_append_modifiers {a text : List Char} (ha : IsPhrase a)
    (h : Expr.spellModifiers fields = .ok text)
    (hword : ∀ m ∈ fields, isWord m.1.toList = true)
    (he : ∀ m ∈ fields, ∀ text, m.2.spell = .ok text → IsPhrase text) : IsPhrase (a ++ text) := by
  rw [Expr.spellModifiers_eq_mapM] at h
  obtain ⟨texts, htexts, rfl⟩ := map_eq_ok_iff.1 h
  clear h
  rw [mapM_eq_ok_iff] at htexts
  induction htexts generalizing a with
  | nil => simpa using ha
  | @cons m text modifiers texts hm _ ih =>
    rw [List.forall_mem_cons] at hword he
    obtain ⟨inner, hinner, rfl⟩ := map_eq_ok_iff.1 hm
    have hcode : ∀ text ∈ [inner], Code text := by simpa using (he.1 inner hinner).code
    have hmodifier := (IsPhrase.word hword.1).append
      (.group (l := '(') (r := ')') (by simp) hcode)
    have hfirst := ha.join (m := [' ']) (by decide) hmodifier
    rw [List.flatten_cons, ← List.append_assoc]
    refine ih ?_ hword.2 he.2
    simpa [Expr.modifierText, Expr.commas] using hfirst

end Parts

/-! ### Expressions -/

section Expressions

open StackScript.Expr

/-- The spelling of an expression, if it has one, is a phrase. -/
private def SpellsPhrase (e : Expr) : Prop := ∀ text, e.spell = .ok text → IsPhrase text

private theorem isPhrase_comparison {left right : Expr} {operator : List Char}
    (ho : operator.all isPlain = true) (hl : SpellsPhrase left) (hr : SpellsPhrase right)
    {text : List Char}
    (h : (do
      let leftText ← left.spell
      let rightText ← right.spell
      return Expr.parenthesize 4 left leftText ++ operator ++
        Expr.parenthesize 4 right rightText) = .ok text) : IsPhrase text := by
  obtain ⟨leftText, hleft, h⟩ := bind_eq_ok_iff.1 h
  obtain ⟨rightText, hright, h⟩ := bind_eq_ok_iff.1 h
  cases h
  exact (hl leftText hleft).parenthesize.join ho (hr rightText hright).parenthesize

/-- The spelling of a call. The operands of an inequality stand two levels further in. -/
private theorem isPhrase_call {function : String} {args : List Expr} {operator : Option Operator}
    {text : List Char} (hwords : (Expr.call function args operator).HasWords)
    (ih : ∀ e ∈ args, SpellsPhrase e)
    (ih' : ∀ e ∈ args, ∀ e' ∈ e.children.map Prod.snd, SpellsPhrase e')
    (h : (Expr.call function args operator).spell = .ok text) : IsPhrase text := by
  rcases operator with _ | operator
  · rw [spell, spellAll_eq_mapM] at h
    obtain ⟨texts, htexts, h⟩ := bind_eq_ok_iff.1 h
    cases h
    rw [List.append_assoc]
    exact (IsPhrase.word hwords).append
      (.group (by simp) fun text ht => (isPhrase_of_mapM htexts ih text ht).code)
  obtain ⟨first, others, rfl⟩ := List.exists_cons_of_ne_nil hwords
  cases operator with
  | eq =>
    unfold spell at h
    split at h
    next left right hargs =>
      rw [hargs] at ih
      exact isPhrase_comparison (by decide) (ih _ (by simp)) (ih _ (by simp)) h
    · cases h
  | ne =>
    unfold spell at h
    split at h
    · cases h
    next left right operator others hargs =>
      rw [hargs] at ih'
      have hsides := ih' _ List.mem_cons_self
      rw [children_call_snd] at hsides
      exact isPhrase_comparison (by decide) (hsides left (by simp)) (hsides right (by simp)) h
    · cases h
    · cases h
  | and | or =>
    rw [spell] at h
    obtain ⟨texts, htexts, h⟩ := bind_eq_ok_iff.1 h
    cases h
    refine .intercalate (by decide) ?_ (isPhrase_spellOperands htexts ih)
    rintro rfl
    rw [spellOperands_eq_mapM, mapM_eq_ok_iff] at htexts
    cases htexts
  | not =>
    rw [spell] at h
    obtain ⟨inner, hinner, h⟩ := bind_eq_ok_iff.1 h
    cases h
    exact (ih first (by simp) inner hinner).parenthesize.sign (by decide) (by decide)

private theorem isPhrase_spell_of_children {e : Expr} (hwords : e.HasWords)
    (ih : ∀ e' ∈ e.children.map Prod.snd, SpellsPhrase e')
    (ih' : ∀ e' ∈ e.children.map Prod.snd, ∀ e'' ∈ e'.children.map Prod.snd, SpellsPhrase e'') :
    SpellsPhrase e := by
  intro text h
  cases e with
  | literal value => exact isPhrase_spellScalar h
  | name x =>
    cases h
    exact isPhrase_spellName hwords
  | object fields =>
    rw [children_object_snd, List.forall_mem_map] at ih
    rw [spell] at h
    obtain ⟨texts, htexts, h⟩ := bind_eq_ok_iff.1 h
    cases h
    exact isPhrase_braces htexts ih
  | array items =>
    rw [children_array_snd] at ih
    rw [spell, spellAll_eq_mapM] at h
    obtain ⟨texts, htexts, h⟩ := bind_eq_ok_iff.1 h
    cases h
    exact .group (by simp) fun text ht => (isPhrase_of_mapM htexts ih text ht).code
  | member base path =>
    rw [spell] at h
    obtain ⟨baseText, hbase, h⟩ := bind_eq_ok_iff.1 h
    cases h
    exact (ih base (by simp [children]) baseText hbase).parenthesize.append
      (isPhrase_dotted hwords)
  | bracket base path =>
    rw [spell] at h
    obtain ⟨baseText, hbase, h⟩ := bind_eq_ok_iff.1 h
    cases h
    rw [List.append_assoc]
    refine (ih base (by simp [children]) baseText hbase).parenthesize.append (.group (by simp) ?_)
    exact List.forall_mem_map.2 fun segment _ => code_quoteString segment
  | call function args operator =>
    rw [children_call_snd] at ih ih'
    exact isPhrase_call hwords ih ih' h
  | resource type properties modifiers =>
    rw [children_resource_snd, List.forall_mem_append, List.forall_mem_map,
      List.forall_mem_map] at ih
    rw [spell_resource] at h
    obtain ⟨body, hbody, h⟩ := bind_eq_ok_iff.1 h
    obtain ⟨attributes, hattributes, h⟩ := bind_eq_ok_iff.1 h
    cases h
    refine isPhrase_append_modifiers ?_ hattributes hwords ih.2
    have htype : IsPhrase ("Resource ".toList ++ spellType type) :=
      (IsPhrase.word (a := "Resource".toList) (by decide)).join (m := [' ']) (by decide)
        (isPhrase_spellType type)
    cases properties with
    | none =>
      cases hbody
      simpa using htype
    | some fields =>
      obtain ⟨texts, htexts, hbody⟩ := bind_eq_ok_iff.1 hbody
      cases hbody
      simpa using htype.join (m := [' ']) (by decide) (isPhrase_braces htexts ih.1)
  | body kind fields =>
    rw [children_body_snd, List.forall_mem_map] at ih
    rw [spell] at h
    obtain ⟨texts, htexts, h⟩ := bind_eq_ok_iff.1 h
    cases h
    have hword : isWord kind.keyword.toList = true := by cases kind <;> decide
    simpa using (IsPhrase.word hword).join (m := [' ']) (by decide) (isPhrase_braces htexts ih)
  | condition test =>
    rw [spell] at h
    obtain ⟨inner, hinner, h⟩ := bind_eq_ok_iff.1 h
    cases h
    exact (IsPhrase.word (a := "Condition".toList) (by decide)).join (m := [' ']) (by decide)
      (ih test (by simp [children]) inner hinner)

/-- The spelling of a legible expression is a phrase. -/
theorem isPhrase_spell {e : Expr} (hlegible : e.IsLegible) {text : List Char}
    (h : e.spell = .ok text) : IsPhrase text := by
  have hall : SpellsPhrase e ∧ ∀ e' ∈ e.children.map Prod.snd, SpellsPhrase e' := by
    clear h
    induction e using induction_children with
    | h e ih =>
      obtain ⟨hwords, hinside⟩ := isLegible_iff.1 hlegible
      replace ih : ∀ e' ∈ e.children.map Prod.snd,
          SpellsPhrase e' ∧ ∀ e'' ∈ e'.children.map Prod.snd, SpellsPhrase e'' := by
        intro e' he'
        obtain ⟨c, hc, rfl⟩ := List.mem_map.1 he'
        exact ih c hc (hinside _ he')
      exact ⟨isPhrase_spell_of_children hwords (fun e' he' => (ih e' he').1)
        fun e' he' => (ih e' he').2, fun e' he' => (ih e' he').1⟩
  exact hall.1 text h

end Expressions

/-! ### Scripts -/

theorem isPhrase_spell_statement {st : Statement} (hlegible : st.root.2.IsLegible)
    {text : List Char} (h : st.spell = .ok text) : IsPhrase text := by
  cases st with
  | header kind value =>
    obtain ⟨inner, hinner, h⟩ := bind_eq_ok_iff.1 h
    cases h
    have hword : isWord kind.keyword.toList = true := by cases kind <;> decide
    simpa using (IsPhrase.word hword).join (m := [' ']) (by decide) (isPhrase_spell hlegible hinner)
  | assign name value line =>
    obtain ⟨inner, hinner, h⟩ := bind_eq_ok_iff.1 h
    cases h
    exact (IsPhrase.key name).join (by decide) (isPhrase_spell hlegible hinner)

private theorem newline_notMem_commas {texts : List (List Char)} (h : ∀ text ∈ texts, '\n' ∉ text) :
    '\n' ∉ Expr.commas texts := by
  induction texts with
  | nil => simp [Expr.commas]
  | cons text texts ih =>
    rw [List.forall_mem_cons] at h
    cases texts with
    | nil => simpa [Expr.commas] using h.1
    | cons text' texts =>
      rw [Expr.commas, List.intercalate_cons_cons]
      simpa [h.1, Expr.commas] using ih h.2

private theorem newline_notMem_of_isWord {a : List Char} (h : isWord a = true) : '\n' ∉ a :=
  fun hmem => ne_of_isPlain (List.all_eq_true.1 (all_isPlain_of_isWord h) _ hmem)
    (show isPlain '\n' = false by decide) rfl

/-- Code stands on one line. -/
theorem Code.newline_notMem {a : List Char} (h : Code a) : '\n' ∉ a := by
  induction h with
  | nil => simp
  | plain hc _ ih => simp [ih, (ne_of_isPlain hc (d := '\n') (by decide)).symm]
  | quoted s _ ih =>
    exact List.not_mem_append (Lexeme.newline_notMem_quoteString _) ih
  | @group pair texts rest hb _ _ iht ih =>
    have hsigns : ∀ b ∈ [('(', ')'), ('[', ']')], b.1 ≠ '\n' ∧ b.2 ≠ '\n' := by decide
    simp [newline_notMem_commas iht, ih, (hsigns pair hb).1.symm, (hsigns pair hb).2.symm]
  | @object fields rest _ _ _ ihf ih =>
    have hkey (key : String) : '\n' ∉ spellKey key.toList := by
      unfold spellKey
      split_ifs with h
      · exact newline_notMem_of_isWord (isWord_of_isIdentifier h)
      · exact Lexeme.newline_notMem_quoteString _
    have hbody : '\n' ∉ bodyText fields := by
      refine newline_notMem_commas (List.forall_mem_map.2 fun field hf => ?_)
      simp [Expr.fieldText, hkey, ihf field hf]
    rw [objectText_eq, inBraces]
    split_ifs <;> simp [hbody, ih]

/-- Texts with empty lines between them. -/
private theorem respaced_intercalate {texts texts' : List (List Char)}
    (h : List.Forall₂ (Respaced false) texts texts') :
    Respaced false (List.intercalate ['\n', '\n'] texts)
      (List.intercalate ['\n', '\n'] texts') := by
  induction h with
  | nil => exact .nil
  | @cons text text' texts texts' ht hts ih =>
    cases hts with
    | nil => simpa using ht
    | cons ht' hts' =>
      simp only [List.intercalate_cons_cons, List.append_assoc] at ih ⊢
      exact ht.append (.blank (by decide) (.blank (by decide) ih))

/-- **The layout respaces scripts.** The layout of the spelling of a legible template differs from
it only in blanks after a brace or a comma and before a closing brace. -/
theorem respaced_layout {t : Template} (ht : t.IsLegible) {raw : List Char}
    (h : t.spell = .ok raw) (indent : Int) : Respaced false raw (layout indent raw) := by
  obtain ⟨texts, htexts, h⟩ := bind_eq_ok_iff.1 h
  cases h
  have hphrases : ∀ text ∈ texts, IsPhrase text :=
    isPhrase_of_mapM htexts fun st hst text htext => isPhrase_spell_statement (ht st hst) htext
  by_cases hne : texts = []
  · subst hne
    exact .nil
  have hparts : paragraphs (List.intercalate ['\n', '\n'] texts) = texts :=
    splitAtPair_intercalate hne fun text htext =>
      .of_notMem (hphrases text htext).code.newline_notMem
  rw [layout, hparts]
  refine respaced_intercalate ?_
  rw [List.forall₂_map_right_iff, List.forall₂_same]
  intro text htext
  have htrim : trim text = text := by
    simpa using (hphrases text htext).tight.trim_eq [] [] (by simp) (by simp)
  rw [htrim]
  exact (hphrases text htext).code.respaced_layoutObjects indent 0

end StackScript.Layout
