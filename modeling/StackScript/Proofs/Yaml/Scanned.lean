import StackScript.Proofs.Yaml.Scalars

/-!
# Tokens of JSON texts

The text of a tree is divided into tokens part by part. Strings may be read as other texts, or not
at all, and a string that does not fit a key is not marked as one; everything else gives the tokens
that it stands for.

## Main definitions

* `Yaml.TokenState.Yields`: what is found from a state on.
* `Yaml.TokenState.Scans`: what a text gives between brackets.
* `Yaml.jsonTokens`: the tokens of a tree.

## Main results

* `Yaml.TokenState.scans_text`: the text of a tree gives its tokens.
-/

namespace StackScript.Yaml

open Value (keyed)

namespace TokenState

variable {s t : TokenState} {flow flow' : Nat} {tokens tokens' new : List Token}
  {gap rest rest' text : List Char} {ok ok' key : Bool}

/-! ### Parts of texts -/

/-- More tokens are found from a state on, up to the layout before the rest of the text. -/
def Reaches (s : TokenState) (flow : Nat) (tokens : List Token) (rest : List Char) : Prop :=
  ∃ t gap, Leads s t ∧ InFlow t flow tokens ∧ (∀ ch ∈ gap, isLayout ch = true) ∧
    t.cursor.rest = gap ++ rest

/-- More tokens are found from a state on, or there is a fault. -/
def Yields (s : TokenState) (ok : Bool) (flow : Nat) (tokens : List Token) (rest : List Char) :
    Prop :=
  if ok then s.Reaches flow tokens rest else s.Faults

theorem Reaches.of_leads (h : Leads s t) (hreach : t.Reaches flow tokens rest) :
    s.Reaches flow tokens rest := by
  obtain ⟨last, gap, hlead, hlast⟩ := hreach
  exact ⟨last, gap, h.trans hlead, hlast⟩

theorem Yields.of_leads (h : Leads s t) (hyield : t.Yields ok flow tokens rest) :
    s.Yields ok flow tokens rest := by
  cases ok with
  | true => exact Reaches.of_leads h hyield
  | false => exact Faults.of_leads h hyield

theorem Yields.of_layout (h : s.Yields ok flow tokens (gap ++ rest))
    (hgap : ∀ ch ∈ gap, isLayout ch = true) : s.Yields ok flow tokens rest := by
  cases ok with
  | true =>
    obtain ⟨t, gap', hlead, ht, hgap', hrest⟩ := h
    refine ⟨t, gap' ++ gap, hlead, ht, List.forall_mem_append.2 ⟨hgap', hgap⟩, ?_⟩
    rw [hrest, List.append_assoc]
  | false => exact h

/-- What is found after a part is found after what is before it. -/
theorem Yields.trans (h : s.Yields ok flow tokens rest)
    (hnext : ∀ t gap, InFlow t flow tokens → (∀ ch ∈ gap, isLayout ch = true) →
      t.cursor.rest = gap ++ rest → t.Yields ok' flow' tokens' rest') :
    s.Yields (ok && ok') flow' tokens' rest' := by
  cases ok with
  | true =>
    obtain ⟨t, gap, hlead, ht, hgap, hrest⟩ := h
    rw [Bool.true_and]
    exact Yields.of_leads hlead (hnext t gap ht hgap hrest)
  | false => exact h

/-- Between brackets a text that is followed by a mark gives tokens, or there is a fault. Where it
starts with a key, a key may start there. -/
def Scans (key : Bool) (text : List Char) (new : List Token) (ok : Bool) : Prop :=
  ∀ ⦃s flow tokens gap tail ch rest⦄, InFlow s flow tokens → flow ≠ 0 →
    (key = true → s.keyAllowed = true) → (∀ ch ∈ gap, isLayout ch = true) → IsTail tail →
    isFlowMark ch = true → s.cursor.rest = gap ++ (text ++ (tail ++ ch :: rest)) →
    s.Yields ok flow (tokens ++ new) (ch :: rest)

theorem Scans.of_false (h : Scans false text new ok) : Scans key text new ok :=
  fun _ _ _ _ _ _ _ hs hflow _ => h hs hflow (by simp)

theorem isLayout_of_isTail {tail : List Char} (h : IsTail tail) :
    ∀ ch ∈ tail, isLayout ch = true := by
  obtain rfl | ⟨level, rfl⟩ := h
  · simp
  · exact isLayout_newline level

theorem scans_word {w : List Char} (hw : IsWord w) : Scans false w [.scalar w true] true := by
  intro s flow tokens gap tail ch rest hs hflow _ hgap htail hch hrest
  obtain ⟨t, hstep, ht, hafter⟩ := hs.exists_word hflow hgap hw htail hch hrest
  exact ⟨t, [], .single hstep, ht, by simp, hafter⟩

/-! ### Brackets -/

/-- The tokens of what stands between brackets. -/
def Brackets.enclose (b : Brackets) (parts : List (List Token)) : List Token :=
  b.start :: (List.intercalate [.flowEntry] parts ++ [b.finish])

namespace Brackets

variable {β : Type} (b : Brackets) {f : β → List Token} {xs : List β} {token : Token}

theorem intercalate_eq (f : β → List Token) (x : β) (xs : List β) :
    List.intercalate [.flowEntry] ((x :: xs).map f) =
      f x ++ xs.flatMap fun y => .flowEntry :: f y := by
  induction xs generalizing x with
  | nil => simp
  | cons y xs ih =>
    rw [List.map_cons, List.map_cons, List.intercalate_cons_cons, ← List.map_cons, ih]
    simp

/-- What stands between brackets is shorter than the whole. -/
theorem length_enclose_of_mem {x : β} (h : x ∈ xs) :
    (f x).length + 2 ≤ (b.enclose (xs.map f)).length := by
  have hinner : (f x).Sublist (List.intercalate [.flowEntry] (xs.map f)) := by
    cases xs with
    | nil => cases h
    | cons y xs =>
      rw [intercalate_eq]
      obtain rfl | h := List.mem_cons.1 h
      · exact List.sublist_append_left _ _
      · have hpart : (.flowEntry :: f x).Sublist (xs.flatMap fun y => .flowEntry :: f y) :=
          List.sublist_flatten_of_mem (List.mem_map_of_mem h)
        exact ((List.sublist_cons_self _ _).trans hpart).trans (List.sublist_append_right _ _)
  have hlength := hinner.length_le
  simp only [enclose, List.length_cons, List.length_append, List.length_nil]
  omega

/-- There are fewer parts between brackets than tokens. -/
theorem length_enclose (h : ∀ x ∈ xs, f x ≠ []) :
    xs.length + 2 ≤ (b.enclose (xs.map f)).length := by
  have hmore (ys : List β) : ys.length ≤ (ys.flatMap fun y => .flowEntry :: f y).length := by
    induction ys with
    | nil => simp
    | cons y ys ih => simp only [List.flatMap_cons, List.length_append, List.length_cons]; omega
  have hinner : xs.length ≤ (List.intercalate [.flowEntry] (xs.map f)).length := by
    cases xs with
    | nil => simp
    | cons y xs =>
      have hfirst := List.length_pos_of_ne_nil (h y List.mem_cons_self)
      have hrest := hmore xs
      rw [intercalate_eq, List.length_append, List.length_cons]
      omega
  simp only [enclose, List.length_cons, List.length_append, List.length_nil]
  omega

/-- Tokens that are no marks of the brackets are those of the parts. -/
theorem count_enclose (xs : List β)
    (h : token ∉ [b.start, .flowEntry, b.finish]) :
    (b.enclose (xs.map f)).count token = (xs.map fun x => (f x).count token).sum := by
  simp only [List.mem_cons, List.not_mem_nil, or_false, not_or] at h
  have hrest (ys : List β) : (ys.flatMap fun y => .flowEntry :: f y).count token =
      (ys.map fun y => (f y).count token).sum := by
    induction ys with
    | nil => rfl
    | cons y ys ih => simp [ih, Ne.symm h.2.1]
  cases xs with
  | nil => simp [enclose, Ne.symm h.1, Ne.symm h.2.2]
  | cons x xs =>
    rw [enclose, intercalate_eq]
    simp [hrest, Ne.symm h.1, Ne.symm h.2.2]

end Brackets

section Lines

variable {α : Type} {line : α → List Char} {found : α → List Token} {good : α → Bool} {level : Nat}

/-- Texts with commas and line feeds between them. -/
private theorem yields_lines {tail : List Char} {ch : Char} {x : α} {xs : List α}
    (h : ∀ y ∈ x :: xs, Scans true (line y) (found y) (good y)) (hs : InFlow s flow tokens)
    (hflow : flow ≠ 0) (hallowed : s.keyAllowed = true) (hgap : ∀ ch ∈ gap, isLayout ch = true)
    (htail : IsTail tail) (hch : isFlowMark ch = true)
    (hrest : s.cursor.rest = gap ++ (List.intercalate (',' :: Json.newline level)
      ((x :: xs).map line) ++ (tail ++ ch :: rest))) :
    s.Yields ((x :: xs).all good) flow
      (tokens ++ List.intercalate [.flowEntry] ((x :: xs).map found)) (ch :: rest) := by
  induction xs generalizing x s tokens gap with
  | nil =>
    have hx := h x (by simp)
    simpa using hx hs hflow (fun _ => hallowed) hgap htail hch (by simpa using hrest)
  | cons y xs ih =>
    rw [List.forall_mem_cons] at h
    have hcomma : s.cursor.rest = gap ++ (line x ++ ([] ++ ',' :: (Json.newline level ++
        (List.intercalate (',' :: Json.newline level) ((y :: xs).map line) ++
          (tail ++ ch :: rest))))) := by
      simpa [List.intercalate_cons_cons] using hrest
    have hfirst := h.1 hs hflow (fun _ => hallowed) hgap (.inl rfl) (by decide) hcomma
    have hmore : s.Yields (good x && (y :: xs).all good) flow
        (tokens ++ found x ++ [.flowEntry] ++ List.intercalate [.flowEntry] ((y :: xs).map found))
        (ch :: rest) := by
      refine hfirst.trans fun t gap' ht hgap' hrest' => ?_
      obtain ⟨u, hstep, hu, hafter, hallowed'⟩ := ht.exists_comma hgap' hrest'
      exact .of_leads (.single hstep) (ih h.2 hu hallowed' (isLayout_newline level) hafter)
    simpa [List.intercalate_cons_cons] using hmore

/-- Brackets around lines. -/
theorem yields_block (b : Brackets) {xs : List α}
    (h : ∀ x ∈ xs, Scans true (line x) (found x) (good x)) (hs : InFlow s flow tokens)
    (hgap : ∀ ch ∈ gap, isLayout ch = true)
    (hrest : s.cursor.rest =
      gap ++ (Json.block b.opening b.closing level (xs.map line) ++ rest)) :
    s.Yields (xs.all good) flow (tokens ++ b.enclose (xs.map found)) rest := by
  have hclosing : isFlowMark b.closing = true := by cases b <;> rfl
  have hclose (t : TokenState) (done : List Token) (gap' : List Char)
      (ht : InFlow t (flow + 1) done) (hgap' : ∀ ch ∈ gap', isLayout ch = true)
      (hrest' : t.cursor.rest = gap' ++ b.closing :: rest) :
      t.Yields true flow (done ++ [b.finish]) rest := by
    obtain ⟨u, hstep, hu, hafter⟩ := ht.exists_close b hgap' hrest'
    exact ⟨u, [], .single hstep, hu, by simp, hafter⟩
  cases xs with
  | nil =>
    obtain ⟨t, hstep, ht, hafter, -⟩ := hs.exists_open b hgap hrest
    have hend := hclose t _ [] ht (by simp) hafter
    simpa [Brackets.enclose] using Yields.of_leads (.single hstep) hend
  | cons x xs =>
    have hopen : s.cursor.rest = gap ++ b.opening :: (Json.newline (level + 1) ++
        (List.intercalate (',' :: Json.newline (level + 1)) ((x :: xs).map line) ++
          (Json.newline level ++ b.closing :: rest))) := by
      simpa [Json.block] using hrest
    obtain ⟨t, hstep, ht, hafter, hallowed⟩ := hs.exists_open b hgap hopen
    have hlines := yields_lines h ht (Nat.succ_ne_zero flow) hallowed (isLayout_newline _)
      (.inr ⟨level, rfl⟩) hclosing hafter
    have hall := hlines.trans fun u gap' hu hgap' hrest' => hclose u _ gap' hu hgap' hrest'
    simpa [Brackets.enclose] using Yields.of_leads (.single hstep) hall

end Lines

end TokenState

/-! ### Trees -/

section Read

variable (read : List Char → Except Fault (List Char))

/-- Whether a string can be read. -/
def isRead (str : List Char) : Bool := (read str).isOk

/-- What a string is read as. -/
def textRead (str : List Char) : List Char := (read str).toOption.getD []

variable {read} in
theorem isRead_of_ok {str text : List Char} (h : read str = .ok text) :
    isRead read str = true ∧ textRead read str = text := by
  simp [isRead, textRead, h, Except.isOk, Except.toBool, Except.toOption]

variable {read} in
theorem isRead_of_error {str : List Char} {fault : Fault} (h : read str = .error fault) :
    isRead read str = false := by
  simp [isRead, h, Except.isOk, Except.toBool]

/-- The tokens of a tree whose strings are read in the given way. -/
def jsonTokens : Value → List Token
  | .scalar (.str s) => [.scalar (textRead read s.toList) false]
  | .scalar s => [.scalar (Json.word s) true]
  | .list items => TokenState.Brackets.sequence.enclose (items.map fun item => jsonTokens item)
  | .map entries =>
    TokenState.Brackets.mapping.enclose (entries.map fun entry =>
      (match entry.1 with
      | .str k => TokenState.keyTokens k.toList (textRead read k.toList)
      | _ => []) ++ jsonTokens entry.2)
  | _ => []
decreasing_by
  · exact Value.sizeOf_item_lt ‹_›
  · exact Value.sizeOf_entry_lt ‹_›

theorem jsonTokens_str (s : String) :
    jsonTokens read (.str s) = [.scalar (textRead read s.toList) false] := by
  rw [jsonTokens]

theorem jsonTokens_scalar {s : Scalar} (h : ∀ text, s ≠ .str text) :
    jsonTokens read (.scalar s) = [.scalar (Json.word s) true] := by
  cases s with
  | str s => exact absurd rfl (h s)
  | _ => rw [jsonTokens]; simp

theorem jsonTokens_list (items : List Value) :
    jsonTokens read (.list items) =
      TokenState.Brackets.sequence.enclose (items.map (jsonTokens read)) := by
  rw [jsonTokens]

/-- The tokens of a field. -/
def fieldTokens (field : String × Value) : List Token :=
  TokenState.keyTokens field.1.toList (textRead read field.1.toList) ++ jsonTokens read field.2

theorem jsonTokens_keyed (fields : List (String × Value)) :
    jsonTokens read (.map (keyed fields)) =
      TokenState.Brackets.mapping.enclose (fields.map (fieldTokens read)) := by
  rw [jsonTokens, keyed, List.map_map]
  rfl

/-- Whether all strings of a tree can be read. -/
def isReadTree (v : Value) : Bool :=
  v.all (fun
    | .str s => isRead read s.toList
    | _ => true) fun k => isRead read k.toList

end Read

namespace TokenState

section Trees

variable {s : TokenState} {flow : Nat} {tokens : List Token} {gap rest : List Char}
  {read : List Char → Except Fault (List Char)} (hread : ∀ str, ReadsAs str (read str))
include hread

theorem scans_string (str : List Char) :
    Scans false (Json.string str) [.scalar (textRead read str) false] (isRead read str) := by
  intro s flow tokens gap tail ch rest hs _ _ hgap htail _ hrest
  cases hstr : read str with
  | ok text =>
    obtain ⟨t, hstep, ht, hafter, -⟩ := hs.exists_string hgap (hstr ▸ hread str) hrest
    obtain ⟨hok, htext⟩ := isRead_of_ok hstr
    rw [hok, htext]
    exact ⟨t, tail, .single hstep, ht, isLayout_of_isTail htail, hafter⟩
  | error fault =>
    rw [isRead_of_error hstr]
    exact hs.faults_string hgap (hstr ▸ hread str) hrest

theorem scans_entry (k : List Char) {text : List Char} {new : List Token} {ok : Bool}
    (h : Scans false text new ok) :
    Scans true (Json.string k ++ ':' :: ' ' :: text) (keyTokens k (textRead read k) ++ new)
      (isRead read k && ok) := by
  intro s flow tokens gap tail ch rest hs hflow hallowed hgap htail hch hrest
  have hkey : s.cursor.rest = gap ++ (Json.string k ++ ':' :: ([' '] ++ (text ++
      (tail ++ ch :: rest)))) := by
    simpa using hrest
  cases hstr : read k with
  | ok found =>
    obtain ⟨t, hlead, ht, hafter⟩ :=
      hs.exists_key hflow (hallowed rfl) hgap (hstr ▸ hread k) hkey
    obtain ⟨hok, htext⟩ := isRead_of_ok hstr
    rw [hok, htext, Bool.true_and, ← List.append_assoc]
    exact .of_leads hlead (h ht hflow (by simp) (by simp [isLayout]) htail hch hafter)
  | error fault =>
    rw [isRead_of_error hstr]
    exact hs.faults_string hgap (hstr ▸ hread k) hkey

private theorem scans_field (field : String × Value) {level : Nat}
    (h : Scans false (Json.text level field.2) (jsonTokens read field.2)
      (isReadTree read field.2)) :
    Scans true (Json.string field.1.toList ++ ':' :: ' ' :: Json.text level field.2)
      (fieldTokens read field) (isRead read field.1.toList && isReadTree read field.2) :=
  scans_entry hread field.1.toList h

/-- The text of a mapping gives its tokens, also outside brackets. -/
private theorem yields_keyed {fields : List (String × Value)} {level : Nat}
    (h : ∀ field ∈ fields, Scans false (Json.text (level + 1) field.2) (jsonTokens read field.2)
      (isReadTree read field.2)) (hs : InFlow s flow tokens) (hgap : ∀ ch ∈ gap, isLayout ch = true)
    (hrest : s.cursor.rest = gap ++ (Json.text level (.map (keyed fields)) ++ rest)) :
    s.Yields (isReadTree read (.map (keyed fields))) flow
      (tokens ++ jsonTokens read (.map (keyed fields))) rest := by
  have hok : isReadTree read (.map (keyed fields)) =
      fields.all fun field => isRead read field.1.toList && isReadTree read field.2 :=
    Value.all_keyed fields
  rw [Json.text_keyed] at hrest
  rw [jsonTokens_keyed, hok]
  exact yields_block .mapping (fun field hfield => scans_field hread field (h field hfield)) hs hgap
    hrest

/-- **The text of a tree gives its tokens.** -/
theorem scans_text {v : Value} (htree : v.isTree = true) (h : v.isWritable = true) (level : Nat) :
    Scans false (Json.text level v) (jsonTokens read v) (isReadTree read v) := by
  induction v, htree using Value.tree_induction generalizing level with
  | scalar s =>
    by_cases hs : ∀ text, s ≠ .str text
    · have hok : isReadTree read (.scalar s) = true := by
        cases s with
        | str text => exact absurd rfl (hs text)
        | _ => simp [isReadTree]
      rw [Json.text_scalar level hs, jsonTokens_scalar read hs, hok]
      exact scans_word (isWord_word hs h)
    · obtain ⟨str, rfl⟩ : ∃ str, s = .str str := by simpa using hs
      rw [Json.text_str, jsonTokens_str, isReadTree, Value.all_scalar]
      exact scans_string hread str.toList
  | list items _ ih =>
    rw [Value.isWritable_list_iff] at h
    have hok : isReadTree read (.list items) = items.all (isReadTree read) := Value.all_list items
    intro s flow tokens gap tail ch rest hs _ _ hgap htail _ hrest
    rw [Json.text_list] at hrest
    rw [jsonTokens_list, hok]
    refine Yields.of_layout ?_ (isLayout_of_isTail htail)
    exact yields_block .sequence (fun item hitem => (ih item hitem (h item hitem) _).of_false) hs
      hgap hrest
  | map fields _ ih =>
    rw [Value.isWritable_map_iff] at h
    intro s flow tokens gap tail ch rest hs _ _ hgap htail _ hrest
    refine Yields.of_layout (yields_keyed hread (fun field hfield => ?_) hs hgap hrest)
      (isLayout_of_isTail htail)
    exact ih field hfield (h _ (List.mem_map_of_mem hfield)).2 _

end Trees

end TokenState

/-! ### Characters -/

/-- Whether the characters of a string may stand in a YAML text as they are written in JSON, where
control characters are escaped. -/
def isAdmitted (str : List Char) : Bool := str.all fun c => decide (c.toNat < 0x20) || isAllowed c

/-- Whether the characters of all strings of a tree are admitted. -/
def isAdmittedTree (v : Value) : Bool :=
  v.all (fun
    | .str s => isAdmitted s.toList
    | _ => true) fun k => isAdmitted k.toList

private theorem isAllowed_of_ascii {c : Char} (h : 0x20 ≤ c.toNat) (h' : c.toNat < 0x7f) :
    isAllowed c = true := by
  simp [isAllowed, h, Nat.le_of_lt_succ h']

private theorem all_isAllowed_string (str : List Char) :
    (Json.string str).all isAllowed = isAdmitted str := by
  rw [Bool.eq_iff_iff]
  simp only [isAdmitted, List.all_eq_true, Bool.or_eq_true, decide_eq_true_eq]
  constructor
  · intro h c hc
    have hcases : Json.stringChar c = [c] ∨ c.toNat < 0x20 ∨ isAllowed c = true := by
      unfold Json.stringChar
      split
      iterate 7 exact .inr (by decide)
      split_ifs with hcontrol
      · exact .inr (.inl hcontrol)
      · exact .inl rfl
    obtain hself | hescaped := hcases
    · refine .inr (h c ?_)
      simp only [Json.string, List.cons_append, List.mem_cons, List.mem_append, List.mem_flatMap]
      exact .inr (.inl ⟨c, hc, by simp [hself]⟩)
    · exact hescaped
  · intro h c hc
    obtain ⟨hcontrol, hmem | hascii⟩ := mem_string hc
    · exact (h c hmem).resolve_left (Nat.not_lt.2 hcontrol)
    · exact isAllowed_of_ascii hcontrol hascii

private theorem all_isAllowed_newline (level : Nat) :
    (Json.newline level).all isAllowed = true := by
  rw [List.all_eq_true]
  intro c hc
  obtain rfl | hspace := List.mem_cons.1 hc
  · rfl
  · rw [List.eq_of_mem_replicate hspace]
    rfl

private theorem all_isAllowed_block (b : TokenState.Brackets) (level : Nat)
    (lines : List (List Char)) :
    (Json.block b.opening b.closing level lines).all isAllowed =
      lines.all fun line => line.all isAllowed := by
  have hbrackets : isAllowed b.opening = true ∧ isAllowed b.closing = true := by
    cases b <;> decide
  have hlines (line : List Char) (lines : List (List Char)) :
      (List.intercalate (',' :: Json.newline (level + 1)) (line :: lines)).all isAllowed =
        (line :: lines).all fun line => line.all isAllowed := by
    induction lines generalizing line with
    | nil => simp
    | cons next lines ih =>
      have hcomma : isAllowed ',' = true := by decide
      rw [List.intercalate_cons_cons, List.all_append, List.all_append, ih]
      simp [hcomma, all_isAllowed_newline]
  cases lines with
  | nil => simp [Json.block, hbrackets]
  | cons line lines =>
    rw [Json.block, List.all_append, List.all_append, List.all_append, hlines]
    · simp [hbrackets, all_isAllowed_newline]
    · simp

private theorem isAllowed_of_isWordChar {c : Char} (h : TokenState.isWordChar c = true) :
    isAllowed c = true := by
  simp only [TokenState.isWordChar, Bool.or_eq_true, beq_iff_eq] at h
  obtain ((halnum | rfl) | rfl) | rfl := h
  · have hrange : 0x20 ≤ c.toNat ∧ c.toNat < 0x7f := by
      delta Char.isAlphanum Char.isAlpha Char.isUpper Char.isLower Char.isDigit at halnum
      simp only [Bool.or_eq_true, Bool.and_eq_true, decide_eq_true_eq, ge_iff_le,
        UInt32.le_iff_toNat_le] at halnum
      simp at halnum
      omega
    exact isAllowed_of_ascii hrange.1 hrange.2
  all_goals decide

/-- The characters of the text of a tree are allowed if and only if those of its strings are
admitted. -/
theorem all_isAllowed_text {v : Value} (htree : v.isTree = true) (h : v.isWritable = true)
    (level : Nat) : (Json.text level v).all isAllowed = isAdmittedTree v := by
  induction v, htree using Value.tree_induction generalizing level with
  | scalar s =>
    by_cases hs : ∀ text, s ≠ .str text
    · have hadmitted : isAdmittedTree (.scalar s) = true := by
        cases s with
        | str text => exact absurd rfl (hs text)
        | _ => simp [isAdmittedTree]
      rw [Json.text_scalar level hs, hadmitted, List.all_eq_true]
      exact fun c hc => isAllowed_of_isWordChar ((isWord_word hs h).1 c hc)
    · obtain ⟨str, rfl⟩ : ∃ str, s = .str str := by simpa using hs
      rw [Json.text_str, isAdmittedTree, Value.all_scalar]
      exact all_isAllowed_string str.toList
  | list items _ ih =>
    rw [Value.isWritable_list_iff] at h
    have hadmitted : isAdmittedTree (.list items) = items.all isAdmittedTree := Value.all_list items
    rw [Json.text_list, hadmitted]
    refine (all_isAllowed_block .sequence level _).trans ?_
    rw [List.all_map, Bool.eq_iff_iff, List.all_eq_true, List.all_eq_true]
    exact forall₂_congr fun item hitem => by
      rw [Function.comp_apply, ih item hitem (h item hitem)]
  | map fields _ ih =>
    rw [Value.isWritable_map_iff] at h
    have hadmitted : isAdmittedTree (.map (keyed fields)) =
        fields.all fun field => isAdmitted field.1.toList && isAdmittedTree field.2 :=
      Value.all_keyed fields
    rw [Json.text_keyed, hadmitted]
    refine (all_isAllowed_block .mapping level _).trans ?_
    rw [List.all_map, Bool.eq_iff_iff, List.all_eq_true, List.all_eq_true]
    have hcolon : isAllowed ':' = true ∧ isAllowed ' ' = true := by decide
    exact forall₂_congr fun field hfield => by
      rw [Function.comp_apply, List.all_append, all_isAllowed_string, List.all_cons, List.all_cons,
        ih field hfield (h _ (List.mem_map_of_mem hfield)).2, hcolon.1, hcolon.2, Bool.true_and,
        Bool.true_and]

/-! ### Whole texts -/

/-- At the end of a text outside brackets the last token is added. -/
private theorem run_end {t : TokenState} {toks : List Token} {gap : List Char}
    (ht : TokenState.InFlow t 0 toks) (hgap : ∀ ch ∈ gap, TokenState.isLayout ch = true)
    (hrest : t.cursor.rest = gap) (fuel : Nat) :
    TokenState.run (fuel + 1) t = (toks ++ [.streamEnd], none) := by
  obtain ⟨s, hs, hend, -, -, hstep⟩ :=
    ht.step_eq hgap (by simp) (hrest.trans (List.append_nil gap).symm)
  obtain ⟨pending, hdrop, -, -⟩ := hs.dropKey_eq
  have hnext : s.next = .ok ({ s with pending, keyAllowed := false }.emit .streamEnd, false) := by
    unfold TokenState.next
    rw [hend]
    show (do return ((← s.outermost).emit .streamEnd, false)) = _
    rw [TokenState.outermost, hs.closeBlocks_eq, hdrop]
    rfl
  rw [TokenState.run, hstep, hnext]
  simp [TokenState.emit, hs.tokens_eq]

section Documents

variable {read : List Char → Except Fault (List Char)} (hread : ∀ str, ReadsAs str (read str))
  {fields : List (String × Value)} (htree : (Value.map (keyed fields)).isTree = true)
  (hwritable : (Value.map (keyed fields)).isWritable = true)
include hread htree hwritable

private theorem yields_document :
    ({ cursor := { rest := Json.text 0 (.map (keyed fields)) ++ ['\n'] } } : TokenState).Yields
      (isReadTree read (.map (keyed fields))) 0 (jsonTokens read (.map (keyed fields))) ['\n'] := by
  have hstart : TokenState.InFlow
      { cursor := { rest := Json.text 0 (.map (keyed fields)) ++ ['\n'] } } 0 [] :=
    ⟨rfl, rfl, rfl, rfl, by simp, by simp⟩
  rw [Value.isTree_keyed_iff] at htree
  rw [Value.isWritable_map_iff] at hwritable
  have hfields (field : String × Value) (hfield : field ∈ fields) :
      TokenState.Scans false (Json.text 1 field.2) (jsonTokens read field.2)
        (isReadTree read field.2) :=
    TokenState.scans_text hread (htree.2 field hfield)
      (hwritable _ (List.mem_map_of_mem hfield)).2 1
  exact TokenState.yields_keyed hread hfields hstart (List.forall_mem_nil _) rfl

/-- The tokens of the text of a document whose strings can be read. -/
theorem tokens_text_eq (hadmitted : isAdmittedTree (.map (keyed fields)) = true)
    (hok : isReadTree read (.map (keyed fields)) = true) :
    tokens (Json.text 0 (.map (keyed fields)) ++ ['\n']) =
      (jsonTokens read (.map (keyed fields)) ++ [.streamEnd], none) := by
  have hallowed : (Json.text 0 (.map (keyed fields)) ++ ['\n']).all isAllowed = true := by
    rw [List.all_append, all_isAllowed_text htree hwritable, hadmitted]
    rfl
  have hyield := yields_document hread htree hwritable
  rw [hok] at hyield
  obtain ⟨t, gap, hlead, ht, hgap, hrest⟩ := hyield
  obtain ⟨n, hn, hrun⟩ := hlead.exists_run
  obtain ⟨fuel, hfuel⟩ : ∃ fuel, (Json.text 0 (.map (keyed fields)) ++ ['\n']).length = n + fuel :=
    Nat.exists_eq_add_of_le ((Nat.le_add_right n _).trans hn)
  rw [tokens, if_pos hallowed, hfuel, Nat.add_assoc, hrun]
  exact run_end ht (List.forall_mem_append.2 ⟨hgap, by simp [TokenState.isLayout]⟩) hrest fuel

/-- The end of the text of a document is not reached if it has a character that is not admitted or a
string that cannot be read. -/
theorem streamEnd_notMem_tokens
    (h : (isAdmittedTree (.map (keyed fields)) && isReadTree read (.map (keyed fields))) = false) :
    Token.streamEnd ∉ (tokens (Json.text 0 (.map (keyed fields)) ++ ['\n'])).1 := by
  rw [tokens, List.all_append, all_isAllowed_text htree hwritable]
  split_ifs with hallowed
  · rw [Bool.and_eq_true] at hallowed
    rw [hallowed.1, Bool.true_and] at h
    have hyield := yields_document hread htree hwritable
    rw [h] at hyield
    exact (hyield _).1
  · simp

end Documents

end StackScript.Yaml
