import StackScript.Proofs.Compile.Shape
import StackScript.Proofs.Decompile.Entries

/-!
# Declared names of templates and documents

The names that a template declares are collected from its statements, those of a document from the
keys of its sections. Both tables agree in both directions: for the document that a template is
compiled to, and for the template that a document is read as.

## Main definitions

* `Value.hasStringNames`: whether the declarations of a document are named by strings.

## Main results

* `Template.HasSections.ofDocument?_eq`: the table of the document of a template.
* `Decompile.TemplateReads.ofTemplate_eq_of_hasStringNames`: the table of the template of a
  document.
* `ofDocument_eq_ofTemplate`: the two tables agree in both directions.
-/

namespace StackScript

open Value (keyed)

/-! ### Documents of templates -/

namespace Template

variable {t : Template} {sections : List (String × Value)}

theorem map_fst_declarations (t : Template) (kind : DeclKind) :
    (t.declarations kind).map Prod.fst =
      t.statements.filterMap (SymbolTable.declaredName? kind) := by
  rw [declarations, List.map_filterMap]
  congr 1
  funext st
  cases st with
  | header => rfl
  | assign name value line =>
    by_cases h : value.declKind? = some kind <;> simp [SymbolTable.declaredName?, h]

/-- A section declares the names of the assignments of its kind. A section that is left out belongs
to a kind without assignments. -/
private theorem HasSections.sectionNames?_eq (h : t.HasSections sections) (kind : DeclKind) :
    SymbolTable.sectionNames? (keyed sections) kind =
      some ((t.declarations kind).map Prod.fst) := by
  rw [SymbolTable.sectionNames?, Value.lookup_keyed]
  cases hlookup : sections.lookup kind.sectionKey with
  | none =>
    have habsent : kind.sectionKey ∉ sections.map Prod.fst := by
      rw [List.lookup_eq_none_iff] at hlookup
      intro hmem
      obtain ⟨field, hfield, heq⟩ := List.mem_map.1 hmem
      simpa [heq] using hlookup field hfield
    rw [h.declared, not_or, not_not] at habsent
    rw [habsent.2]
    rfl
  | some v =>
    have hmem : (kind.sectionKey, v) ∈ sections := by
      rw [← Value.field?_keyed] at hlookup
      simpa using Value.mem_fields_of_field? hlookup
    obtain ⟨entries, rfl, hentries⟩ := h.entries kind v hmem
    rw [← Value.map_fst_eq_of_forall₂ (hentries.flip.imp fun _ _ h => h.1)]
    exact Decompile.mapM_nameOfKey?_keyed entries

/-- The document of a template declares the names that the template declares. -/
theorem HasSections.ofDocument?_eq (h : t.HasSections sections) :
    SymbolTable.ofDocument? (keyed sections) = some (.ofTemplate t) := by
  simp only [SymbolTable.ofDocument?, h.sectionNames?_eq, map_fst_declarations]
  rfl

end Template

/-! ### Templates of documents -/

/-- Whether the declarations of a document are named by strings. -/
def Value.hasStringNames (document : Value) : Bool :=
  match document.unfold with
  | .map entries => DeclKind.all.all fun kind =>
    match (lookup kind.sectionKey entries).map unfold with
    | some (.map inner) => (stringKeys? inner).isSome
    | _ => true
  | _ => true

namespace Decompile

variable {scope : Scope} {t : Template}

/-- Strings are their own texts, so a section declares the names of its statements. -/
theorem SectionEntries.sectionNames?_eq {document : Value} {kind : DeclKind}
    {entries : List (String × Value)} (h : SectionEntries scope kind entries)
    (hdocument : document.unfold = .map scope.entries) (hnames : document.hasStringNames = true) :
    SymbolTable.sectionNames? scope.entries kind = some (entries.map Prod.fst) := by
  have hkind : kind ∈ DeclKind.all := by cases kind <;> decide
  simp only [Value.hasStringNames, hdocument, List.all_eq_true] at hnames
  replace hnames := hnames kind hkind
  rw [SymbolTable.sectionNames?]
  cases h with
  | absent h => rw [h]; rfl
  | null h hv => rw [h, Option.map_some, hv]; rfl
  | mapping h hv =>
    rw [h, Option.map_some, hv] at hnames ⊢
    obtain ⟨keys, hkeys⟩ := Option.isSome_iff_exists.1 hnames
    obtain ⟨fields, rfl, -⟩ := Value.stringKeys?_eq_some_iff.1 hkeys
    refine (mapM_nameOfKey?_keyed fields).trans (congrArg some ?_)
    rw [keyed, List.map_map, List.map_map]
    rfl

/-- The template of a document declares the names that the document declares. -/
theorem TemplateReads.ofTemplate_eq_of_hasStringNames {document : Value} {limit : Nat}
    (h : TemplateReads scope t) (hscope : Scope.ofDocument limit document = .ok scope)
    (hnames : document.hasStringNames = true) :
    ∃ entries, document.unfold = .map entries ∧
      SymbolTable.ofDocument? entries = some (.ofTemplate t) := by
  obtain ⟨hdocument, hsymbols, -⟩ := Scope.ofDocument_eq_ok_iff.1 hscope
  refine ⟨scope.entries, hdocument, ?_⟩
  rw [h.ofTemplate_eq_of_sectionNames? hsymbols fun _ _ hentries =>
    hentries.sectionNames?_eq hdocument hnames]
  exact hsymbols

end Decompile

/-- **The two tables of declared names agree.** The document that a script is compiled to declares
the names that the template of the script declares, and the template that a document is read as
declares the names that the document declares, provided that these are strings. -/
theorem ofDocument_eq_ofTemplate :
    (∀ (limit : Nat) (text : List Char) (t : Template) (document : Value),
      parseScript limit text = .ok t → t.toDocument = .ok document →
      ∃ entries, document.unfold = .map entries ∧
        SymbolTable.ofDocument? entries = some (.ofTemplate t)) ∧
    ∀ (limit : Nat) (document : Value) (t : Template), document.hasStringNames = true →
      (decompileTemplate limit document).1 = .ok t →
      ∃ entries, document.unfold = .map entries ∧
        SymbolTable.ofDocument? entries = some (.ofTemplate t) := by
  refine ⟨fun limit text t document hparse hdocument => ?_, fun limit document t hnames h => ?_⟩
  · obtain ⟨sections, rfl, hsections⟩ := (isWellFormed_of_parseScript hparse).hasSections hdocument
    exact ⟨keyed sections, rfl, hsections.ofDocument?_eq⟩
  · obtain ⟨scope, hscope, hreads⟩ := Decompile.exists_templateReads h
    exact hreads.ofTemplate_eq_of_hasStringNames hscope hnames

/-- A document with a name of two kinds and a section that is null. -/
private def sharedDocument : Value :=
  .map (keyed [("Resources", .map (keyed [("A", .map (keyed [("Type", .str "T")]))])),
    ("Parameters", .map (keyed [("A", .map [])])), ("Rules", .null)])

/-- A script with a name of two kinds. -/
private def sharedScript : List Char := "A=Resource T\nA=Parameter {}".toList

/-- The tables agree for a name of two kinds. -/
theorem ofDocument_eq_ofTemplate_shared :
    (∃ t document, parseScript 2 sharedScript = .ok t ∧ t.toDocument = .ok document ∧
      ∃ entries, document.unfold = .map entries ∧
        SymbolTable.ofDocument? entries = some (.ofTemplate t)) ∧
    ∃ t, sharedDocument.hasStringNames = true ∧ (decompileTemplate 1 sharedDocument).1 = .ok t ∧
      ∃ entries, sharedDocument.unfold = .map entries ∧
        SymbolTable.ofDocument? entries = some (.ofTemplate t) := by
  have hread : (match parseScript 2 sharedScript with
      | .ok t => t.toDocument.toOption.isSome
      | .error _ => false) = true := by decide +kernel
  have hnames : sharedDocument.hasStringNames = true := by decide +kernel
  have hsome : (decompileTemplate 1 sharedDocument).1.toOption.isSome = true := by decide +kernel
  constructor
  · cases hparse : parseScript 2 sharedScript with
    | error e => simp [hparse] at hread
    | ok t =>
      simp only [hparse] at hread
      cases hdocument : t.toDocument with
      | error e => simp [hdocument, Except.toOption] at hread
      | ok document =>
        exact ⟨t, document, rfl, hdocument,
          ofDocument_eq_ofTemplate.1 2 sharedScript t document hparse hdocument⟩
  · cases h : (decompileTemplate 1 sharedDocument).1 with
    | error e => simp [h, Except.toOption] at hsome
    | ok t => exact ⟨t, hnames, rfl, ofDocument_eq_ofTemplate.2 1 sharedDocument t hnames h⟩

end StackScript
