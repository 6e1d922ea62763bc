import StackScript.Proofs.Yaml.JsonNodes

/-!
# Reading JSON texts as YAML

The text of a document denotes that document exactly if every part of it is kept. A string is kept
if it has no character that may not stand in a text and none that is folded, a floating-point number
if its text has a point, and a key if it also fits where a key is looked for.

## Main definitions

* `Yaml.isKeptScalar`, `Yaml.isKeptKey`: scalars and keys that are kept.

## Main results

* `Yaml.read_text_eq_iff`: the documents that their texts denote.
-/

namespace StackScript.Yaml

open Value (keyed)
open TokenState.Brackets (count_enclose)

/-! ### Texts that cannot be read -/

/-- A text that denotes something is read to its end, with no more colons than keys. -/
theorem exists_passed_of_read {text : List Char} {v : Value} (h : Yaml.read text = .ok v)
    (hne : v ≠ .null) :
    ∃ passed rest, (tokens text).1 = passed ++ rest ∧ passed.count .value ≤ passed.count .key ∧
      .streamEnd ∈ passed := by
  obtain ⟨graph, hgraph, hvalue⟩ := bind_eq_ok_iff.1 h
  cases graph with
  | none =>
    cases hvalue
    exact absurd rfl hne
  | some graph =>
    obtain ⟨⟨root, s⟩, hdocument, hroot⟩ := bind_eq_ok_iff.1 hgraph
    cases root with
    | none => cases hroot
    | some root =>
      obtain ⟨passed, hpassed⟩ := Nodes.exists_passed_of_document hdocument
      exact ⟨passed, s.tokens, hpassed⟩

private theorem toNat_not_and_le (p q : Bool) : (!(p && q)).toNat ≤ (!p).toNat + (!q).toNat := by
  cases p <;> cases q <;> decide

/-- What falls short part by part falls short in all. -/
private theorem sum_add_le {β : Type} {a b : β → Nat} {good : β → Bool} {xs : List β}
    (h : ∀ x ∈ xs, a x + (!good x).toNat ≤ b x) :
    (xs.map a).sum + (!xs.all good).toNat ≤ (xs.map b).sum := by
  induction xs with
  | nil => simp
  | cons x xs ih =>
    rw [List.forall_mem_cons] at h
    have hrest := ih h.2
    have hboth := toNat_not_and_le (good x) (xs.all good)
    rw [List.map_cons, List.map_cons, List.sum_cons, List.sum_cons, List.all_cons]
    omega

section Failures

variable (read : List Char → Except Fault (List Char))

theorem streamEnd_notMem_jsonTokens {v : Value} (htree : v.isTree = true) :
    .streamEnd ∉ jsonTokens read v := by
  rw [← List.count_eq_zero]
  induction v, htree using Value.tree_induction with
  | scalar s =>
    obtain ⟨text, plain, htokens⟩ := exists_jsonTokens_scalar read s
    rw [htokens]
    rfl
  | list items _ ih =>
    rw [jsonTokens_list, count_enclose .sequence _ (by decide), List.map_congr_left ih]
    simp
  | map fields _ ih =>
    have hfields (field : String × Value) (hfield : field ∈ fields) :
        (fieldTokens read field).count .streamEnd = 0 := by
      rw [fieldTokens, List.count_append, ih field hfield]
      cases h : TokenState.fitsKey field.1.toList <;> simp [TokenState.keyTokens, h]
    rw [jsonTokens_keyed, count_enclose .mapping _ (by decide), List.map_congr_left hfields]
    simp

/-- There are more colons than keys if not all keys fit. -/
theorem count_key_le {v : Value} (htree : v.isTree = true) :
    (jsonTokens read v).count .key + (!fitsTree v).toNat ≤ (jsonTokens read v).count .value := by
  induction v, htree using Value.tree_induction with
  | scalar s =>
    obtain ⟨text, plain, htokens⟩ := exists_jsonTokens_scalar read s
    rw [htokens, fitsTree, Value.all_scalar]
    rfl
  | list items _ ih =>
    rw [jsonTokens_list, count_enclose .sequence _ (by decide),
      count_enclose .sequence _ (by decide), fitsTree, Value.all_list]
    exact sum_add_le ih
  | map fields _ ih =>
    rw [jsonTokens_keyed, count_enclose .mapping _ (by decide),
      count_enclose .mapping _ (by decide), fitsTree, Value.all_keyed]
    refine sum_add_le fun field hfield => ?_
    have hvalue := ih field hfield
    have hkey : (TokenState.keyTokens field.1.toList (textRead read field.1.toList)).count .key +
        (!TokenState.fitsKey field.1.toList).toNat =
        (TokenState.keyTokens field.1.toList (textRead read field.1.toList)).count .value := by
      cases h : TokenState.fitsKey field.1.toList <;> simp [TokenState.keyTokens, h]
    have hboth := toNat_not_and_le (TokenState.fitsKey field.1.toList) (fitsTree field.2)
    rw [fieldTokens, List.count_append, List.count_append]
    rw [fitsTree] at hvalue hboth
    omega

variable {read} in
/-- A text with a character that is not admitted, a string that cannot be read, or a key that does
not fit denotes nothing. -/
theorem read_text_ne_ok (hread : ∀ str, ReadsAs str (read str)) {fields : List (String × Value)}
    (htree : (Value.map (keyed fields)).isTree = true)
    (hwritable : (Value.map (keyed fields)).isWritable = true)
    (h : (isAdmittedTree (.map (keyed fields)) && isReadTree read (.map (keyed fields)) &&
      fitsTree (.map (keyed fields))) = false) {v : Value} (hne : v ≠ .null) :
    Yaml.read (Json.text 0 (.map (keyed fields)) ++ ['\n']) ≠ .ok v := by
  intro hok
  obtain ⟨passed, rest, htokens, hcount, hend⟩ := exists_passed_of_read hok hne
  cases hscanned : isAdmittedTree (.map (keyed fields)) &&
    isReadTree read (.map (keyed fields)) with
  | false =>
    refine streamEnd_notMem_tokens hread htree hwritable hscanned ?_
    rw [htokens]
    exact List.mem_append_left _ hend
  | true =>
    rw [hscanned, Bool.true_and] at h
    rw [Bool.and_eq_true] at hscanned
    rw [tokens_text_eq hread htree hwritable hscanned.1 hscanned.2] at htokens
    have hmore := count_key_le read htree
    rw [h] at hmore
    -- Everything before the end has been passed, as the end is not among the tokens of the tree.
    obtain ⟨more, rfl, hlast⟩ | ⟨more, hjson, -⟩ := List.append_eq_append_iff.1 htokens
    · have hsub : more.Sublist [.streamEnd] := hlast ▸ List.sublist_append_left more rest
      have hcolons : more.count .key = 0 :=
        Nat.le_zero.1 (hsub.count_le .key)
      rw [List.count_append, List.count_append, hcolons] at hcount
      simp only [Bool.not_false, Bool.toNat_true] at hmore
      omega
    · have hnotMem := streamEnd_notMem_jsonTokens read htree
      rw [hjson] at hnotMem
      exact hnotMem (List.mem_append_left _ hend)

end Failures

/-! ### Texts that are read as written -/

/-- Whether a scalar is kept when the text of a document is read. -/
def isKeptScalar : Scalar → Bool
  | .str s => isAdmitted s.toList && isSteady s.toList
  | .float x => (Json.float x).contains '.'
  | _ => true

/-- Whether a key is kept when the text of a document is read. -/
def isKeptKey (k : String) : Bool := isAdmitted k.toList && TokenState.fitsKey k.toList

private theorem ne_break_of_plain {c : Char} (h : (!isFolded c || c == ' ') = true) :
    c ≠ '\u0085' ∧ isSeparator c = false := by
  rw [Bool.or_eq_true, Bool.not_eq_true', beq_iff_eq] at h
  obtain h | rfl := h
  · simp only [isFolded, Bool.or_eq_false_iff, beq_eq_false_iff_ne] at h
    exact ⟨h.1.2, h.2⟩
  · decide

/-- A key that fits has no line breaks, so nothing in it is folded. -/
theorem isSteady_of_fitsKey {k : List Char} (h : TokenState.fitsKey k = true) :
    isSteady k = true := by
  rw [TokenState.fitsKey, Bool.and_eq_true] at h
  have hchars := List.all_eq_true.1 h.1
  clear h
  induction k with
  | nil => rfl
  | cons c rest ih =>
    rw [List.forall_mem_cons] at hchars
    obtain ⟨hc, hseparator⟩ := ne_break_of_plain hchars.1
    rw [isSteady_cons_iff]
    refine ⟨⟨hc, fun _ => ?_, fun hsep => ?_⟩, ih hchars.2⟩
    · cases rest with
      | nil => rfl
      | cons d rest => exact (ne_break_of_plain (hchars.2 d List.mem_cons_self)).2
    · rw [hseparator] at hsep
      cases hsep

section Reading

variable {read : List Char → Except Fault (List Char)} (hreading : ∀ str, IsReading str (read str))
include hreading

private theorem isRead_of_isSteady {str : List Char} (h : isSteady str = true) :
    isRead read str = true := by
  have hstr := hreading str
  cases hread : read str with
  | ok text => exact (isRead_of_ok hread).1
  | error fault =>
    rw [hread, IsReading, h] at hstr
    cases hstr

private theorem textRead_eq_self_iff (str : List Char) :
    textRead read str = str ↔ isSteady str = true := by
  have hstr := hreading str
  cases hread : read str with
  | ok text =>
    rw [(isRead_of_ok hread).2]
    rw [hread] at hstr
    exact hstr.2
  | error fault =>
    have hne : str ≠ [] := by
      rintro rfl
      rw [hread] at hstr
      cases hstr
    rw [hread, IsReading] at hstr
    simp [textRead, hread, Except.toOption, hstr, Ne.symm hne]

/-- The tests of the parts of a text are one test of what is kept. -/
private theorem all_isKeptScalar_eq {v : Value} (htree : v.isTree = true) :
    v.all isKeptScalar isKeptKey = (isAdmittedTree v && isReadTree read v && fitsTree v &&
      v.all (fun s => reread read s == s) fun _ => true) := by
  rw [isAdmittedTree, isReadTree, fitsTree, Value.all_and htree, Value.all_and htree,
    Value.all_and htree]
  congr 1
  · funext s
    cases s with
    | str s =>
      have hsame : reread read (.str s) = .str s ↔ isSteady s.toList = true := by
        rw [← textRead_eq_self_iff hreading, reread, Scalar.str.injEq, ← String.toList_inj,
          String.toList_ofList]
      rw [Bool.eq_iff_iff]
      simp only [isKeptScalar, Bool.and_true, Bool.and_eq_true, beq_iff_eq, hsame]
      exact ⟨fun h => ⟨⟨h.1, isRead_of_isSteady hreading h.2⟩, h.2⟩, fun h => ⟨h.1.1, h.2⟩⟩
    | float x =>
      have hsame : reread read (.float x) = .float x ↔ '.' ∈ Json.float x := by
        show rereadFloat x = .float x ↔ _
        rw [rereadFloat]
        split_ifs with h <;> simp [h]
      rw [Bool.eq_iff_iff]
      simp [isKeptScalar, hsame]
    | _ => simp [isKeptScalar, reread, rereadWord]
  · funext k
    rw [Bool.eq_iff_iff]
    simp only [isKeptKey, Bool.and_true, Bool.and_eq_true]
    exact ⟨fun h => ⟨⟨h.1, isRead_of_isSteady hreading (isSteady_of_fitsKey h.2)⟩, h.2⟩,
      fun h => ⟨h.1.1, h.2⟩⟩

end Reading

/-- **The text of a document denotes it exactly if all of its parts are kept.** -/
theorem read_text_eq_iff {fields : List (String × Value)}
    (htree : (Value.map (keyed fields)).isTree = true)
    (hwritable : (Value.map (keyed fields)).isWritable = true) :
    Yaml.read (Json.text 0 (.map (keyed fields)) ++ ['\n']) = .ok (.map (keyed fields)) ↔
      (Value.map (keyed fields)).all isKeptScalar isKeptKey = true := by
  choose read hread hreading using exists_readsAs
  have hkey (k : List Char) (hk : TokenState.fitsKey k = true) : textRead read k = k :=
    (textRead_eq_self_iff hreading k).2 (isSteady_of_fitsKey hk)
  rw [all_isKeptScalar_eq hreading htree, Bool.and_eq_true, ← Value.mapScalars_eq_self_iff htree]
  cases h : isAdmittedTree (.map (keyed fields)) && isReadTree read (.map (keyed fields)) &&
    fitsTree (.map (keyed fields)) with
  | false =>
    have hne := read_text_ne_ok hread htree hwritable h (v := .map (keyed fields)) (by simp)
    simp [hne]
  | true =>
    simp only [Bool.and_eq_true] at h
    rw [read_text hread hkey htree hwritable h.2 h.1.1 h.1.2]
    simp

end StackScript.Yaml
