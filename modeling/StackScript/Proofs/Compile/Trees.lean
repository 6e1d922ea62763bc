import StackScript.Proofs.Compile.Shape
import StackScript.Proofs.Decompile.Failures
import StackScript.Proofs.Document.Normal
import StackScript.Proofs.Document.Parts

/-!
# Documents are trees

The document of a template that is read is a tree, and every integer in it can be written: the keys
of an object differ, so do the modifiers of a resource and the names of declarations of a kind, and
no literal has too many digits.

## Main definitions

* `Value.IsWritableTree`: trees that can be written.

## Main results

* `Denotes.isWritableTree`: the value of an expression.
* `Template.HasSections.isWritableTree`: the document of a template.
-/

namespace StackScript

open Value (keyed)

/-! ### Trees that can be written -/

/-- A tree that can be written. -/
structure Value.IsWritableTree (v : Value) : Prop where
  isTree : v.isTree = true
  isWritable : v.isWritable = true

namespace Value.IsWritableTree

theorem str (s : String) : IsWritableTree (.str s) := ⟨isTree_scalar _, isWritable_str s⟩

theorem list_iff {items : List Value} :
    IsWritableTree (.list items) ↔ ∀ item ∈ items, item.IsWritableTree := by
  constructor
  · exact fun h item hitem =>
      ⟨isTree_list_iff.1 h.isTree item hitem, isWritable_list_iff.1 h.isWritable item hitem⟩
  · exact fun h => ⟨isTree_list_iff.2 fun item hitem => (h item hitem).isTree,
      isWritable_list_iff.2 fun item hitem => (h item hitem).isWritable⟩

theorem keyed {fields : List (String × Value)} (hnodup : (fields.map Prod.fst).Nodup)
    (h : ∀ field ∈ fields, field.2.IsWritableTree) : IsWritableTree (.map (keyed fields)) where
  isTree := isTree_keyed_iff.2 ⟨hnodup, fun field hfield => (h field hfield).isTree⟩
  isWritable := by
    rw [isWritable_map_iff, Value.keyed, List.forall_mem_map]
    exact fun field hfield => ⟨isWritable_str _, (h field hfield).isWritable⟩

theorem single {key : String} {v : Value} (h : v.IsWritableTree) :
    IsWritableTree (.single key v) := by
  have hfield : IsWritableTree (.map (Value.keyed [(key, v)])) :=
    keyed (by simp) (List.forall_mem_singleton.2 h)
  exact hfield

end Value.IsWritableTree

theorem isWritableTree_callValue (function : String) {args : List Value}
    (h : ∀ arg ∈ args, arg.IsWritableTree) : (callValue function args).IsWritableTree := by
  refine .single ?_
  split
  · exact h _ (List.mem_singleton_self _)
  · exact Value.IsWritableTree.list_iff.2 h

/-! ### Values of expressions -/

variable {symbols : SymbolTable} {e : Expr} {v : Value}

/-- The value of a well-formed expression is a tree that can be written. -/
theorem Denotes.isWritableTree (h : Denotes symbols e v) (hwell : e.IsWellFormed) :
    v.IsWritableTree := by
  induction h with
  | literal s =>
    refine ⟨Value.isTree_scalar s, ?_⟩
    have hproper := (Expr.isWellFormed_iff.1 hwell).1
    cases s with
    | int n => exact hproper n rfl
    | _ => simp [Value.isWritable]
  | condition => exact .single (.str _)
  | reference => exact .single (.str _)
  | object _ ih =>
    obtain ⟨hproper, hparts⟩ := Expr.isWellFormed_iff.1 hwell
    rw [Expr.children_object_snd, List.map_map, List.forall_mem_map] at hparts
    refine .keyed ?_ (List.forall_mem_map.2 fun p hp => ih p hp (hparts p hp))
    rw [List.map_map]
    rwa [Expr.IsProper, List.map_map] at hproper
  | array _ ih =>
    obtain ⟨-, hparts⟩ := Expr.isWellFormed_iff.1 hwell
    rw [Expr.children_array_snd, List.forall_mem_map] at hparts
    rw [Value.IsWritableTree.list_iff, List.forall_mem_map]
    exact fun p hp => ih p hp (hparts p hp)
  | member =>
    refine .single (Value.IsWritableTree.list_iff.2 ?_)
    simp [Value.IsWritableTree.str]
  | bracket =>
    refine .single (Value.IsWritableTree.list_iff.2 ?_)
    simp [Value.IsWritableTree.str]
  | ref => exact .single (.str _)
  | choice _ _ ih =>
    obtain ⟨-, hparts⟩ := Expr.isWellFormed_iff.1 hwell
    rw [Expr.children_call_snd, List.forall_mem_cons, List.forall_mem_map] at hparts
    exact isWritableTree_callValue _ (List.forall_mem_cons.2
      ⟨.str _, List.forall_mem_map.2 fun p hp => ih p hp (hparts.2 p hp)⟩)
  | find _ _ ih =>
    obtain ⟨-, hparts⟩ := Expr.isWellFormed_iff.1 hwell
    rw [Expr.children_call_snd, List.forall_mem_cons, List.forall_mem_map] at hparts
    exact isWritableTree_callValue _ (List.forall_mem_cons.2
      ⟨.str _, List.forall_mem_map.2 fun p hp => ih p hp (hparts.2 p hp)⟩)
  | call _ _ _ ih =>
    obtain ⟨-, hparts⟩ := Expr.isWellFormed_iff.1 hwell
    rw [Expr.children_call_snd, List.forall_mem_map] at hparts
    exact isWritableTree_callValue _ (List.forall_mem_map.2 fun p hp => ih p hp (hparts p hp))

theorem Value.IsWritableTree.unwrapReference (h : v.IsWritableTree) :
    v.unwrapReference.IsWritableTree := by
  obtain ⟨htree, hwritable⟩ := h
  induction v, htree using Value.tree_induction with
  | scalar s => exact ⟨isTree_scalar s, hwritable⟩
  | list items htree ih =>
    rw [unwrapReference_list, list_iff, List.forall_mem_map]
    exact fun item hitem => ih item hitem (isWritable_list_iff.1 hwritable item hitem)
  | map fields htree _ =>
    unfold Value.unwrapReference
    split
    · simp_all
    · split_ifs
      · exact .str _
      · exact .single (.str _)
    · exact ⟨htree, hwritable⟩

theorem DenotesModifier.isWritableTree {modifier : String}
    (h : DenotesModifier symbols modifier e v) (hwell : e.IsWellFormed) : v.IsWritableTree := by
  cases h with
  | policy => exact .str _
  | unwrapped _ h => exact (h.isWritableTree hwell).unwrapReference
  | plain _ _ h => exact h.isWritableTree hwell

/-- The modifiers of a well-formed resource have different keys, which are not those of its type and
its properties, and values that are trees. -/
private theorem isWritableTree_modifiers {type : String}
    {properties : Option (List (String × Expr))} {modifiers : List (String × Expr × Value)}
    (hwell : (Expr.resource type properties (modifiers.map fun m => (m.1, m.2.1))).IsWellFormed)
    (hm : ∀ m ∈ modifiers, DenotesModifier symbols m.1 m.2.1 m.2.2) :
    ("Type" :: "Properties" :: modifiers.map Prod.fst).Nodup ∧
      ∀ m ∈ modifiers, m.2.2.IsWritableTree := by
  obtain ⟨⟨-, -, hnodup, hnames⟩, hparts⟩ := Expr.isWellFormed_iff.1 hwell
  rw [Expr.children_resource_snd, List.forall_mem_append] at hparts
  have hinside := hparts.2
  rw [List.map_map, List.forall_mem_map] at hinside
  rw [List.map_map] at hnodup
  refine ⟨Expr.nodup_resource_keys hnodup ?_, fun m h => (hm m h).isWritableTree (hinside m h)⟩
  rw [List.forall_mem_map] at hnames ⊢
  exact fun m h => (hnames m h).1

/-- The value of a well-formed declaration is a tree that can be written. -/
theorem DenotesDeclaration.isWritableTree (h : DenotesDeclaration symbols e v)
    (hwell : e.IsWellFormed) : v.IsWritableTree := by
  obtain ⟨hproper, hinside⟩ := Expr.isWellFormed_iff.1 hwell
  cases h with
  | bare hm =>
    obtain ⟨hnodup, hvalues⟩ := isWritableTree_modifiers hwell hm
    refine .keyed ?_ (List.forall_mem_cons.2 ⟨.str _, List.forall_mem_map.2 hvalues⟩)
    rw [List.map_cons, List.map_map]
    exact hnodup.sublist ((List.sublist_cons_self _ _).cons_cons _)
  | @resource type fields properties modifiers hp hm =>
    obtain ⟨hnodup, hvalues⟩ := isWritableTree_modifiers hwell hm
    have hobject : (Expr.object fields).IsWellFormed := by
      refine Expr.isWellFormed_iff.2 ⟨hproper.2.1 fields rfl, ?_⟩
      rw [Expr.children_resource_snd, List.forall_mem_append] at hinside
      rw [Expr.children_object_snd]
      exact hinside.1
    refine .keyed ?_ (List.forall_mem_cons.2 ⟨.str _, List.forall_mem_cons.2
      ⟨hp.isWritableTree hobject, List.forall_mem_map.2 hvalues⟩⟩)
    rw [List.map_cons, List.map_cons, List.map_map]
    exact hnodup
  | body h => exact h.isWritableTree (Expr.isWellFormed_iff.2 ⟨hproper, hinside⟩)
  | condition h => exact h.isWritableTree (hinside _ (List.mem_singleton_self _))

/-! ### Documents -/

namespace Template

variable {t : Template}

theorem IsWellFormed.of_mem_headers (h : t.IsWellFormed) {header : Header × Expr}
    (hheader : header ∈ t.headers) : header.2.IsWellFormed := by
  obtain ⟨st, hst, hsome⟩ := List.mem_filterMap.1 hheader
  cases st with
  | header kind value =>
    cases hsome
    exact h.root hst
  | assign => cases hsome

theorem IsWellFormed.of_mem_declarations (h : t.IsWellFormed) {kind : DeclKind}
    {declaration : String × Expr} (hd : declaration ∈ t.declarations kind) :
    declaration.2.IsWellFormed := by
  obtain ⟨st, hst, hsome⟩ := List.mem_filterMap.1 hd
  cases st with
  | header => cases hsome
  | assign name value line =>
    dsimp only at hsome
    split_ifs at hsome
    cases hsome
    exact h.root hst

variable {sections : List (String × Value)}

/-- The value of every section is a tree that can be written. -/
private theorem HasSections.isWritableTree_of_mem (h : t.HasSections sections)
    (hwell : t.IsWellFormed) (hnodup : (sections.map Prod.fst).Nodup) {entry : String × Value}
    (hentry : entry ∈ sections) : entry.2.IsWritableTree := by
  obtain ⟨key, v⟩ := entry
  obtain ⟨kind, rfl⟩ | ⟨kind, rfl⟩ :=
    sectionOrder_cases (h.order.subset (List.mem_map_of_mem (f := Prod.fst) hentry))
  · obtain ⟨header, hheader, rfl⟩ :=
      List.mem_map.1 ((h.header kind).1 (List.mem_map_of_mem (f := Prod.fst) hentry))
    obtain ⟨w, hw, hdenotes⟩ := h.header_value header hheader
    have hsame : (header.1.keyword, v) = (header.1.keyword, w) :=
      List.inj_on_of_nodup_map hnodup hentry hw rfl
    cases hsame
    exact hdenotes.isWritableTree (hwell.of_mem_headers hheader)
  · obtain ⟨entries, rfl, hentries⟩ := h.entries kind v hentry
    obtain ⟨parts, hfst, rfl, hparts⟩ :=
      exists_triples (R := fun _ => DenotesDeclaration (.ofTemplate t)) hentries
    refine .keyed ?_ (List.forall_mem_map.2 fun p hp => ?_)
    · have hnames := hwell.names kind
      rw [← hfst, List.map_map] at hnames
      rwa [List.map_map]
    · have hmem : (p.1, p.2.1) ∈ t.declarations kind := by
        rw [← hfst]
        exact List.mem_map_of_mem hp
      exact (hparts p hp).isWritableTree (hwell.of_mem_declarations hmem)

/-- The document of a well-formed template is a tree that can be written. -/
theorem HasSections.isWritableTree (h : t.HasSections sections) (hwell : t.IsWellFormed) :
    (Value.map (keyed sections)).IsWritableTree := by
  have hnodup : (sections.map Prod.fst).Nodup := h.order.nodup (by decide)
  exact .keyed hnodup fun _ => h.isWritableTree_of_mem hwell hnodup

end Template

end StackScript
