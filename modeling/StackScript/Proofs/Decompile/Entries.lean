import Mathlib.Data.List.Nodup
import Mathlib.Data.Sum.Basic
import StackScript.Proofs.Decompile.Documents
import StackScript.Proofs.Document.Normal
import StackScript.Proofs.Grammar.Readable

/-!
# Templates of trees

The template of a tree has one statement for each header and for each declaration of the tree, in
order. So it declares the names that the tree declares, and no two statements are about the same
header or declaration.

## Main definitions

* `Decompile.EntryReads`: the statement that an entry of a document is read as.

## Main results

* `Decompile.TemplateReads.forall₂_toEntries`: a tree is read as one statement for each entry.
* `Decompile.TemplateReads.ofTemplate_eq_of_sectionNames?`,
  `Decompile.TemplateReads.ofTemplate_eq`: a template declares the names that its document declares.
* `Decompile.TemplateReads.nodup_subject`: the statements of the template of a tree do not clash.
-/

namespace StackScript

/-- What must differ between two entries of a document. -/
def Entry.subject : Entry → Header ⊕ (Option DeclKind × String)
  | .header kind _ => .inl kind
  | .declaration kind name _ => .inr (some kind, name)

namespace Decompile

variable {scope : Scope} {t : Template}

/-- The statement that an entry of a document is read as. -/
inductive EntryReads (scope : Scope) : Entry → Statement → Prop
  | header {kind : Header} {v : Value} {e : Expr} (h : HeaderReads scope kind v e) :
      EntryReads scope (.header kind v) (.header kind e)
  | declaration {kind : DeclKind} {name : String} {v : Value} {e : Expr}
      (h : DeclarationReads scope kind v e) :
      EntryReads scope (.declaration kind name v) (.assign name e 0)

theorem DeclarationReads.declKind?_eq {kind : DeclKind} {v : Value} {e : Expr}
    (h : DeclarationReads scope kind v e) : e.declKind? = some kind := by
  cases h <;> rfl

theorem EntryReads.subject_eq {entry : Entry} {st : Statement} (h : EntryReads scope entry st) :
    st.subject = entry.subject := by
  cases h with
  | header => rfl
  | declaration h => rw [Statement.subject, h.declKind?_eq, Entry.subject]

/-! ### Declared names -/

/-- The keys of fields are names. -/
theorem mapM_nameOfKey?_keyed (fields : List (String × Value)) :
    ((Value.keyed fields).mapM fun entry => SymbolTable.nameOfKey? entry.1) =
      some (fields.map Prod.fst) := by
  induction fields with
  | nil => rfl
  | cons field fields ih =>
    rw [Value.keyed_cons, List.mapM_cons, ih]
    rfl

/-- The statements of a section declare its entries, and nothing of another kind. -/
private theorem filterMap_declaredName? {kind other : DeclKind} {entries : List (String × Value)}
    {sts : List Statement} (h : List.Forall₂ (fun entry st => ∃ e, st = .assign entry.1 e 0 ∧
      DeclarationReads scope kind entry.2 e) entries sts) :
    sts.filterMap (SymbolTable.declaredName? other) =
      if kind = other then entries.map Prod.fst else [] := by
  induction h with
  | nil => simp
  | cons hst _ ih =>
    obtain ⟨e, rfl, he⟩ := hst
    rw [List.filterMap_cons, ih, SymbolTable.declaredName?, he.declKind?_eq]
    by_cases hkind : kind = other <;> simp [hkind]

/-- A template declares the names that its document declares, if these are the texts of the keys of
its sections. -/
theorem TemplateReads.ofTemplate_eq_of_sectionNames? (h : TemplateReads scope t)
    (hsymbols : SymbolTable.ofDocument? scope.entries = some scope.symbols)
    (hnames : ∀ kind entries, SectionEntries scope kind entries →
      SymbolTable.sectionNames? scope.entries kind = some (entries.map Prod.fst)) :
    SymbolTable.ofTemplate t = scope.symbols := by
  obtain ⟨headers, sections, hstatements, hheaders, hsections⟩ := h
  let names (kind : DeclKind) : List String :=
    (SymbolTable.sectionNames? scope.entries kind).getD []
  have hheader (kind : DeclKind) : headers.filterMap (SymbolTable.declaredName? kind) = [] := by
    refine List.filterMap_eq_nil_iff.2 fun st hst => ?_
    obtain ⟨p, -, e, rfl, -⟩ := exists_of_mem_right hheaders hst
    rfl
  have hsection (kind : DeclKind) : sections.map (List.filterMap (SymbolTable.declaredName? kind)) =
      declarationOrder.map fun other => if other = kind then names other else [] := by
    rw [← List.forall₂_eq_eq_eq, List.forall₂_map_left_iff, List.forall₂_map_right_iff]
    refine hsections.flip.imp fun sts other hsts => ?_
    obtain ⟨entries, hentries, hsts⟩ := hsts
    simp only [filterMap_declaredName? hsts, names, hnames _ _ hentries, Option.getD_some]
  have hall (kind : DeclKind) :
      t.statements.filterMap (SymbolTable.declaredName? kind) = names kind := by
    rw [hstatements, List.filterMap_append, hheader, List.nil_append, List.filterMap_flatten,
      hsection]
    cases kind <;> simp [declarationOrder]
  have hsome (kind : DeclKind) :
      SymbolTable.sectionNames? scope.entries kind = some (names kind) := by
    have hmem : kind ∈ declarationOrder := by cases kind <;> decide
    obtain ⟨_, -, entries, hentries, -⟩ := exists_of_mem_right hsections.flip hmem
    simp only [names, hnames _ _ hentries, Option.getD_some]
  rw [SymbolTable.ofTemplate, ← Option.some_inj, ← hsymbols]
  simp only [hall, SymbolTable.ofDocument?, hsome]
  rfl

/-! ### Trees -/

section Trees

variable (hv : (Value.map scope.entries).isTree = true)
include hv

private theorem presentHeaders_eq :
    presentHeaders scope.entries = (Value.map scope.entries).headers := by
  unfold presentHeaders Value.headers
  simp only [Value.lookup_eq_field? hv]

/-- The entries of a section of a tree are its fields. -/
private theorem sectionEntries_eq {kind : DeclKind} {entries : List (String × Value)}
    (h : SectionEntries scope kind entries) :
    entries = (Value.map scope.entries).declarations kind := by
  have tree_of {v : Value} (h : Value.lookup kind.sectionKey scope.entries = some v) :
      v.isTree = true :=
    Value.isTree_field? hv ((Value.lookup_eq_field? hv _).symm.trans h)
  rw [Value.declarations, ← Value.lookup_eq_field? hv]
  cases h with
  | absent h =>
    rw [h]
    rfl
  | null h hnull =>
    rw [Value.unfold_eq_self (tree_of h)] at hnull
    rw [h, hnull]
    rfl
  | mapping h hmap =>
    have htree := tree_of h
    rw [Value.unfold_eq_self htree] at hmap
    subst hmap
    obtain ⟨written, rfl, -⟩ := Value.isTree_map_iff.1 htree
    rw [h, Option.getD_some, Value.fields_keyed, Value.keyed, List.map_map]
    exact List.map_id _

/-- **A tree is read as one statement for each entry.** -/
theorem TemplateReads.forall₂_toEntries (h : TemplateReads scope t) :
    List.Forall₂ (EntryReads scope) (Value.map scope.entries).toEntries t.statements := by
  obtain ⟨headers, sections, hstatements, hheaders, hsections⟩ := h
  rw [presentHeaders_eq hv] at hheaders
  rw [hstatements, Value.toEntries, List.flatMap_def]
  refine List.rel_append ?_ (List.rel_flatten ?_)
  · rw [List.forall₂_map_left_iff]
    refine hheaders.imp fun header st hst => ?_
    obtain ⟨e, rfl, he⟩ := hst
    exact .header he
  · rw [List.forall₂_map_left_iff]
    refine hsections.imp fun kind sts hsts => ?_
    obtain ⟨entries, hentries, hsts⟩ := hsts
    rw [sectionEntries_eq hv hentries] at hsts
    rw [List.forall₂_map_left_iff]
    refine hsts.imp fun declaration st hst => ?_
    obtain ⟨e, rfl, he⟩ := hst
    exact .declaration he

private theorem map_subject_eq (h : TemplateReads scope t) :
    t.statements.map Statement.subject = (Value.map scope.entries).toEntries.map Entry.subject := by
  rw [← List.forall₂_eq_eq_eq, List.forall₂_map_left_iff, List.forall₂_map_right_iff]
  exact (h.forall₂_toEntries hv).flip.imp fun _ _ hst => hst.subject_eq

/-- The statements of the template of a tree do not clash. -/
theorem TemplateReads.nodup_subject (h : TemplateReads scope t) :
    (t.statements.map Statement.subject).Nodup := by
  have hheaders : ((Value.map scope.entries).headers.map Prod.fst).Nodup := by
    rw [← presentHeaders_eq hv, map_fst_presentHeaders]
    exact List.Nodup.filter _ (by decide)
  rw [map_subject_eq hv h, Value.toEntries, List.map_append, List.map_flatMap, List.nodup_append]
  simp only [List.map_map, Function.comp_def, Entry.subject]
  -- Headers differ, declarations of one kind have different names, and the other subjects are of
  -- different kinds.
  refine ⟨?_, List.nodup_flatMap.2 ⟨fun kind _ => ?_, ?_⟩, ?_⟩
  · have hinjective : Function.Injective
        (Sum.inl : Header → Header ⊕ (Option DeclKind × String)) := Sum.inl_injective
    have hnodup := hheaders.map hinjective
    rwa [List.map_map] at hnodup
  · have hinjective : Function.Injective fun name =>
        (Sum.inr (some kind, name) : Header ⊕ (Option DeclKind × String)) :=
      fun _ _ h => by simpa using h
    have hnodup := (Value.isTree_declarations hv kind).1.map hinjective
    rwa [List.map_map] at hnodup
  · have horder : declarationOrder.Pairwise (· ≠ ·) := by decide
    refine horder.imp fun hne => List.disjoint_left.2 fun subject hleft hright => ?_
    obtain ⟨_, -, rfl⟩ := List.mem_map.1 hleft
    obtain ⟨_, -, hsubject⟩ := List.mem_map.1 hright
    simp only [Sum.inr.injEq, Prod.mk.injEq, Option.some.injEq] at hsubject
    exact hne hsubject.1.symm
  · simp

/-- The names that a section of a tree declares. -/
theorem sectionNames?_eq (kind : DeclKind) :
    SymbolTable.sectionNames? scope.entries kind =
      some (((Value.map scope.entries).declarations kind).map Prod.fst) := by
  rw [SymbolTable.sectionNames?, Value.lookup_eq_field? hv, Value.declarations]
  cases hfield : (Value.map scope.entries).field? kind.sectionKey with
  | none => rfl
  | some v =>
    have htree := Value.isTree_field? hv hfield
    rw [Option.map_some, Value.unfold_eq_self htree, Option.getD_some]
    cases v with
    | map entries =>
      obtain ⟨written, rfl, -⟩ := Value.isTree_map_iff.1 htree
      rw [Value.fields_keyed]
      exact mapM_nameOfKey?_keyed written
    | _ => rfl

/-- A template declares the names that its tree declares. -/
theorem TemplateReads.ofTemplate_eq (h : TemplateReads scope t)
    (hsymbols : SymbolTable.ofDocument? scope.entries = some scope.symbols) :
    SymbolTable.ofTemplate t = scope.symbols :=
  h.ofTemplate_eq_of_sectionNames? hsymbols fun kind entries hentries => by
    rw [sectionNames?_eq hv, sectionEntries_eq hv hentries]

end Trees

/-- A tree that is read consists of the entries that are in scope. -/
theorem Scope.eq_of_ofDocument {limit : Nat} {document : Value} (hv : document.isTree = true)
    (h : Scope.ofDocument limit document = .ok scope) :
    document = .map scope.entries ∧
      SymbolTable.ofDocument? scope.entries = some scope.symbols ∧ scope.limit = limit := by
  rwa [Scope.ofDocument_eq_ok_iff, Value.unfold_eq_self hv] at h

end Decompile

end StackScript
