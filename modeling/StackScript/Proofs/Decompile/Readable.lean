import StackScript.Proofs.Decompile.Entries
import StackScript.Proofs.Decompile.Legible
import StackScript.Proofs.Spelling.Parts

/-!
# Templates of documents are read back

A tree is read as an expression that nests no deeper than the tree: parentheses are put around
operators only, and an operator without parentheses needs no level of its own. So an expression that
was read from a tree within a number of levels is read back from its spelling within as many, if it
has a spelling at all. The statement around it and the object or the declaration in the statement
take one level each, so templates of documents are read back with two levels more.

## Main results

* `Decompile.Shaped.readable`: what a tree is read as is read back.
* `Decompile.TemplateReads.isReadable`: so is the template of a document.
-/

namespace StackScript.Decompile

open StackScript.Expr Text

variable {symbols : SymbolTable} {levels : Nat} {e : Expr}

/-! ### Values -/

/-- The parts of a tree are trees, and the keys of a tree differ. -/
theorem determines_isTree : Determines (fun v => v.isTree = true)
    (fun s => ∀ x, s = .float x → x.isFinite = true) List.Nodup where
  unfold hv := (Value.unfold_eq_self hv).symm ▸ hv
  items := Value.isTree_list_iff.1
  entries hv := by
    obtain ⟨written, rfl, -, htrees⟩ := Value.isTree_map_iff.1 hv
    exact List.forall_mem_map.2 fun field hf => ⟨rfl, htrees field hf⟩
  str _ := rfl
  literal _ hfinite := hfinite
  names hv h := by
    obtain ⟨written, rfl, hnodup, -⟩ := Value.isTree_map_iff.1 hv
    rw [Value.keyed, List.forall₂_map_left_iff] at h
    have hnames : written.map Prod.fst = _ := List.forall₂_eq_eq_eq ▸
      List.forall₂_map_left_iff.2 (h.imp fun _ _ hname => Option.some.inj hname)
    exact hnames ▸ hnodup

/-- **What a tree is read as is read back** with as many levels, if it has a spelling. -/
theorem Shaped.readable (h : Shaped Scalar.IsSpellable List.Nodup levels e) {place : Nat}
    (hp : place ≤ 4) : Readable levels place e := by
  have lift {inner levels place : Nat} {e : Expr} (hl : inner < levels)
      (h : Readable inner place e) : Readable (levels - 1) place e :=
    h.mono (Nat.le_sub_one_of_lt hl)
  -- An operator that is read with fewer levels can stand in parentheses.
  have group {inner levels place : Nat} {e : Expr} (hl : inner < levels)
      (h : Readable inner 1 e) : Readable levels place e :=
    .operand (lift hl h) (Nat.zero_lt_of_lt hl)
  induction h generalizing place with
  | literal hs => exact .literal hs
  | name hx => exact .name (isName_of_isBareName hx)
  | pseudo ha => exact .pseudo ha
  | member hx hne hpath =>
    refine .member (isName_of_isBareName hx) ?_ hne hpath
    rintro rfl
    exact absurd hx (by decide)
  | bracket hx hne => exact .bracket (.name (isName_of_isBareName hx)) hne
  | array hl _ ih =>
    exact .array (fun _ => Nat.zero_lt_of_lt hl) fun e he => lift hl (ih e he (by decide))
  | object hl hk _ ih =>
    exact .object hk (fun _ => Nat.zero_lt_of_lt hl) fun f hf => lift hl (ih f hf (by decide))
  | call hl hf href _ ih =>
    exact .call (isName_of_isBareName hf) href (fun _ => Nat.zero_lt_of_lt hl)
      fun e he => lift hl (ih e he (by decide))
  | negation hl _ ih => exact .negation hp (Nat.zero_lt_of_lt hl) (lift hl (ih le_rfl))
  | equality hl _ _ ih ih' => exact group hl (.equality (by decide) (ih le_rfl) (ih' le_rfl))
  | inequality hl _ _ ih ih' => exact group hl (.inequality (by decide) (ih le_rfl) (ih' le_rfl))
  | conjunction hl hn _ ih =>
    exact group hl (.conjunction (by decide) hn fun e he => ih e he (by decide))
  | disjunction hl hn _ ih =>
    exact group hl (.disjunction (by decide) hn fun e he => ih e he (by decide))

private theorem ShapedFields.readable {fields : List (String × Expr)}
    (h : ShapedFields Scalar.IsSpellable List.Nodup levels fields) :
    Readable (levels + 1) 4 (.object fields) :=
  .object h.names (fun _ => levels.succ_pos) fun f hf => (h.values f hf).readable (by decide)

/-- Declarations are read back with one level more, if their policies are allowed. -/
private theorem ShapedDeclaration.declared
    (h : ShapedDeclaration Scalar.IsSpellable List.Nodup levels e)
    (hpolicy : ∀ type properties modifiers, e = .resource type properties modifiers →
      ∀ m ∈ modifiers, Reader.PolicyHolds m) : Declared (levels + 1) e := by
  cases h with
  | condition h => exact .condition levels.succ_pos (h.readable (by decide))
  | body hf => exact .body hf.readable
  | resource ht hp hn hd hm =>
    exact .resource ht (fun fields h => (hp fields h).readable)
      (fun m h => List.contains_iff_mem.2 (hn m h)) hd (fun _ => levels.succ_pos)
      (fun m h => (hm m h).readable (by decide)) (hpolicy _ _ _ rfl)

/-! ### Templates -/

variable {scope : Scope}

/-- Only references are read as bare names. -/
theorem isReference_of_readsAs {v : Value} {x : String} (hv : v.isTree = true)
    (h : ReadsAs symbols levels v (.name x)) : v.isReference = true := by
  cases levels with
  | zero => exact h.elim
  | succ levels => exact Value.isReference_of_readsAsName ((readsAsName_iff hv h).2 ⟨x, rfl⟩)

theorem mem_of_policyValues? {name : String} {allowed : List String}
    (h : policyValues? name = some allowed) :
    name ∈ ["DeletionPolicy", "UpdateReplacePolicy"] := by
  unfold policyValues? at h
  split at h
  · simp
  · simp
  · cases h

/-- A bare name is an allowed policy, unless it comes from a reference. -/
private theorem policyHolds_of_modifierReads {name : String} {v : Value} {e : Expr}
    (hv : v.isTree = true)
    (hplain : name ∈ ["DeletionPolicy", "UpdateReplacePolicy"] → v.isReference = false)
    (h : ModifierReads scope name v e) : Reader.PolicyHolds (name, e) := by
  rintro allowed x hallowed rfl
  have hname := mem_of_policyValues? hallowed
  generalize he : Expr.name x = e at h
  cases h with
  | policy _ hs =>
    cases he
    rwa [hallowed] at hs
  | declared hr =>
    have hnone : ∀ name ∈ ["DeletionPolicy", "UpdateReplacePolicy"],
        referenceModifiers.contains name = false := by decide
    rw [hnone name hname] at hr
    cases hr
  | names => cases he
  | value h =>
    subst he
    obtain ⟨levels, -, h⟩ := h
    exact absurd ((hplain hname).symm.trans (isReference_of_readsAs hv h)) (by decide)

/-- What an entry of a section is read as is read back with one level more. -/
private theorem declared_of_declarationReads {kind : DeclKind} {v : Value}
    (hlimit : 0 < scope.limit) (hv : v.isTree = true)
    (hplain : kind = .resource → ∀ key ∈ ["DeletionPolicy", "UpdateReplacePolicy"],
      (v.field? key).any Value.isReference = false)
    (h : DeclarationReads scope kind v e) (hs : ∃ text, e.spell = .ok text) :
    Declared (scope.limit + 1) e := by
  have hshaped := (determines_isTree.shaped_of_declarationReads hv h).spellable hs
  rw [max_eq_left hlimit] at hshaped
  refine hshaped.declared ?_
  rintro type properties modifiers rfl m hmem
  cases h with
  | resource hentries _ _ _ hm =>
    rw [Value.unfold_eq_self hv] at hentries
    subst hentries
    obtain ⟨p, hpresent, hname, hread⟩ := exists_of_mem_right hm hmem
    have hfield := (mem_presentModifiers hpresent).2
    rw [Value.lookup_eq_field? hv, hname] at hfield
    refine policyHolds_of_modifierReads (Value.isTree_field? hv hfield) (fun hpolicy => ?_)
      (hname ▸ hread)
    simpa [hfield] using hplain rfl m.1 hpolicy

/-- The value of a header fits the header. -/
private theorem headerValueFits_of_headerReads {kind : Header} {v : Value}
    (h : HeaderReads scope kind v e) : Reader.headerValueFits kind e = true := by
  cases h with
  | string hk | mapping hk =>
    simp only [List.mem_cons, List.not_mem_nil, or_false] at hk
    rcases hk with rfl | rfl | rfl <;> rfl
  | strings => simp [Reader.headerValueFits, Expr.isString]

/-- **The template of a document is read back**, if it has a spelling, with two levels more than the
document was read with. -/
theorem TemplateReads.isReadable {t : Template} (h : TemplateReads scope t)
    (hv : (Value.map scope.entries).isTree = true)
    (hplain : (Value.map scope.entries).HasPlainNames) (hlimit : 0 < scope.limit) {limit : Nat}
    (hle : scope.limit + 2 ≤ limit) (hs : ∃ raw, t.spell = .ok raw) : t.IsReadable limit := by
  refine ⟨fun st hst => ?_, h.nodup_subject hv⟩
  obtain ⟨entry, hentry, hread⟩ := exists_of_mem_right (h.forall₂_toEntries hv) hst
  have hspell := Template.exists_spell_iff.1 hs st hst
  have htree := Value.isTree_of_mem_toEntries hv hentry
  cases hread with
  | header hread =>
    have hshaped := (determines_isTree.shaped_of_headerReads htree hread).spellable hspell
    rw [max_eq_left hlimit] at hshaped
    exact ⟨by omega, (hshaped.readable (by decide)).mono (by omega),
      headerValueFits_of_headerReads hread⟩
  | declaration hread =>
    refine ⟨by omega, (declared_of_declarationReads hlimit htree ?_ hread hspell).mono (by omega)⟩
    rintro rfl
    exact hplain.policies _ (Value.mem_toEntries_declaration.1 hentry)

end StackScript.Decompile
