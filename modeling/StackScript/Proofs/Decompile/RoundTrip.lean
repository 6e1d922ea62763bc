import StackScript.Proofs.Decompile.Resources
import StackScript.Proofs.Layout.Meaning
import StackScript.Proofs.Spelling.Scripts

/-!
# Documents come back from their scripts

The script of a document is read as the template of the document, up to the lines of its statements,
and every statement of that template denotes the normal form of the entry it was written for. So
compiling the script of a document gives the normal form of the document.

## Main results

* `Template.toDocument_withoutLines_eq_ok_iff`: the document of a template does not depend on lines.
* `Decompile.EntryReads.toEntry_eq`: statements denote the normal forms of the entries they were
  read from.
* `Decompile.TemplateReads.toDocument_eq`: so templates denote the normal forms of documents.
* `toDocument_of_decompile`: compiling the script of a document gives its normal form.
-/

namespace StackScript

/-! ### Lines -/

theorem Statement.toEntry_withoutLine_eq_ok_iff {symbols : SymbolTable} {st : Statement}
    {entry : Entry} :
    st.withoutLine.toEntry symbols = .ok entry ↔ st.toEntry symbols = .ok entry := by
  cases st with
  | header => rfl
  | assign name value line =>
    simp only [Statement.withoutLine, Statement.toEntry_assign_eq_ok_iff]

/-- The document of a template does not depend on the lines of its statements. -/
theorem Template.toDocument_withoutLines_eq_ok_iff {t : Template} {document : Value} :
    t.withoutLines.toDocument = .ok document ↔ t.toDocument = .ok document := by
  have hsymbols : SymbolTable.ofTemplate t.withoutLines = SymbolTable.ofTemplate t := by
    unfold SymbolTable.ofTemplate Template.withoutLines
    congr 1
    funext kind
    rw [List.filterMap_map]
    congr 1
    funext st
    cases st <;> rfl
  unfold Template.toDocument Template.toDocumentWith
  rw [hsymbols]
  simp only [bind_eq_ok_iff, mapM_eq_ok_iff, Template.withoutLines, List.forall₂_map_left_iff,
    Statement.toEntry_withoutLine_eq_ok_iff]

namespace Decompile

variable {scope : Scope}

/-! ### Headers -/

private theorem toValue_of_headerReads {kind : Header} {v : Value} {e : Expr} (hv : v.isTree = true)
    (hm : v.misplaces = false) (h : HeaderReads scope kind v e) :
    e.toValue scope.symbols = .ok v.headerForm := by
  have hself := Value.unfold_eq_self hv
  cases h with
  | string _ hs =>
    obtain rfl := hself.symm.trans hs
    rfl
  | @strings v items names hs hn =>
    obtain rfl := hself.symm.trans hs
    obtain rfl := allStrings?_eq_some hn
    have hvalues : Expr.values scope.symbols (names.map fun name => .literal (.str name)) =
        .ok (names.map .str) := by
      rw [Expr.values_eq_ok_iff, List.forall₂_map_left_iff, List.forall₂_map_right_iff]
      exact List.forall₂_same.2 fun name _ => rfl
    rw [Expr.toValue, hvalues]
    rfl
  | mapping _ hs hf =>
    rw [toValue_of_fieldsRead hv hm hs hf]
    obtain rfl := hself.symm.trans hs
    rfl

/-! ### Declarations -/

/-- A resource comes back in normal form, if no reference stands where it has a name. -/
private theorem resourceWith_returnedForm_eq {symbols : SymbolTable} {v : Value}
    (hv : v.isTree = true)
    (hpolicies : ∀ key ∈ ["DeletionPolicy", "UpdateReplacePolicy"],
      (v.field? key).any Value.isReference = false)
    (hnames : ∀ key ∈ ["DependsOn", "Condition"],
      (v.field? key).any Value.listsReference = false) :
    v.resourceWith (Value.returnedForm symbols) = v.resourceForm := by
  rw [Value.resourceForm_eq]
  refine Value.resourceWith_congr fun key part hpart => ?_
  have hown : part.returnedForm symbols key = part.ownForm key := by
    refine if_neg fun hnamed => ?_
    rw [Bool.and_eq_true, Option.isSome_iff_exists] at hnamed
    obtain ⟨⟨allowed, hallowed⟩, hreads⟩ := hnamed
    have hplain := hpolicies key (mem_of_policyValues? hallowed)
    rw [hpart, Option.any_some, Value.isReference_of_readsAsName hreads] at hplain
    cases hplain
  rw [hown, Value.ownForm]
  split_ifs with hr
  · have hkey : key ∈ ["DependsOn", "Condition"] := List.contains_iff_mem.1 hr
    have hlists : part.listsReference = false := by simpa [hpart] using hnames key hkey
    have hne : key ≠ "Properties" := by
      rintro rfl
      exact absurd hkey (by decide)
    rw [Value.unwrapReference_listForm part (Value.isTree_field? hv hpart) hlists, Value.partForm,
      if_neg hne]
  · rfl

/-- Declarations denote the normal forms of what they were read from. -/
private theorem declarationValue_of_declarationReads {kind : DeclKind} {v : Value} {e : Expr}
    (hv : v.isTree = true) (hm : v.misplaces = false)
    (hpolicies : kind = .resource → ∀ key ∈ ["DeletionPolicy", "UpdateReplacePolicy"],
      (v.field? key).any Value.isReference = false)
    (hnames : kind = .resource → ∀ key ∈ ["DependsOn", "Condition"],
      (v.field? key).any Value.listsReference = false)
    (h : DeclarationReads scope kind v e) :
    e.declarationValue scope.symbols = .ok (v.declarationForm kind) := by
  cases h with
  | condition h => exact toValue_of_valueReads hv hm h
  | @body kind v entries fields hs hf =>
    rw [Expr.declarationValue, toValue_of_fieldsRead hv hm hs hf]
    cases kind <;> rfl
  | resource hs ht hne hp hmodifiers =>
    rw [declarationValue_of_resourceReads hv hm (.resource hs ht hne hp hmodifiers),
      resourceWith_returnedForm_eq hv (hpolicies rfl) (hnames rfl)]
    rfl

/-! ### Templates -/

variable {t : Template}

/-- Statements denote the normal forms of the entries they were read from. -/
theorem EntryReads.toEntry_eq {document : Value} {entry : Entry} {st : Statement}
    (hv : document.isTree = true) (hplain : document.HasPlainNames)
    (hentry : entry ∈ document.toEntries) (h : EntryReads scope entry st) :
    st.toEntry scope.symbols = .ok entry.normalForm := by
  have htree := Value.isTree_of_mem_toEntries hv hentry
  have hplaces := Value.misplaces_of_mem_toEntries hplain.arguments hentry
  cases h with
  | header h =>
    exact Statement.toEntry_header_eq_ok_iff.2 ⟨_, toValue_of_headerReads htree hplaces h, rfl⟩
  | @declaration kind name v e h =>
    refine Statement.toEntry_assign_eq_ok_iff.2 ⟨kind, _, h.declKind?_eq, ?_, rfl⟩
    refine declarationValue_of_declarationReads htree hplaces ?_ ?_ h
    · rintro rfl
      exact hplain.policies _ (Value.mem_toEntries_declaration.1 hentry)
    · rintro rfl
      exact hplain.names _ (Value.mem_toEntries_declaration.1 hentry)

/-- Templates denote the normal forms of the documents they were read from. -/
theorem TemplateReads.toDocument_eq (h : TemplateReads scope t)
    (hsymbols : SymbolTable.ofDocument? scope.entries = some scope.symbols)
    (hv : (Value.map scope.entries).isTree = true)
    (hplain : (Value.map scope.entries).HasPlainNames) :
    t.toDocument = .ok (Value.map scope.entries).normalForm := by
  have hentries : t.statements.mapM (Statement.toEntry scope.symbols) =
      .ok ((Value.map scope.entries).toEntries.map Entry.normalForm) := by
    rw [mapM_eq_ok_iff, List.forall₂_map_right_iff]
    have hall := (List.forall₂_and_left _ _).2 ⟨fun _ hentry => hentry, h.forall₂_toEntries hv⟩
    exact hall.flip.imp fun st entry ⟨hentry, hread⟩ => hread.toEntry_eq hv hplain hentry
  rw [Template.toDocument, h.ofTemplate_eq hv hsymbols, Template.toDocumentWith, hentries,
    ← Value.documentOfEntries_normalForm hv]
  rfl

end Decompile

/-! ### Scripts -/

/-- The text of a template is a respaced version of its spelling, up to line ends after it. -/
theorem Template.exists_respaced_of_layout {indent : Nat} {t : Template} {text : List Char}
    (hlegible : t.IsLegible) (h : t.layout indent = .ok text) :
    ∃ raw gap, t.spell = .ok raw ∧ (∀ c ∈ gap, c = '\n') ∧
      Layout.Respaced false (raw ++ gap) text := by
  obtain ⟨raw, hraw, htext⟩ := bind_eq_ok_iff.1 h
  obtain rfl := pure_eq_ok_iff.1 htext
  split_ifs with hempty
  · rw [List.isEmpty_iff] at hempty
    subst hempty
    exact ⟨[], [], hraw, by simp, .nil⟩
  · have hend : Layout.Respaced false ['\n'] ['\n'] := .blank (by decide) .nil
    exact ⟨raw, ['\n'], hraw, by simp, (Layout.respaced_layout hlegible hraw indent).append hend⟩

/-- Readable templates are read back from their text, which is laid out and ends a line. -/
theorem Template.IsReadable.exists_parseScript_of_layout {limit indent : Nat} {t : Template}
    {text : List Char} (hreadable : t.IsReadable limit) (hlegible : t.IsLegible)
    (h : t.layout indent = .ok text) :
    ∃ t', parseScript limit text = .ok t' ∧ t'.withoutLines = t.withoutLines := by
  obtain ⟨raw, gap, hraw, hgap, hspaces⟩ := Template.exists_respaced_of_layout hlegible h
  obtain ⟨raw', t', hraw', ht', hlines⟩ := hreadable.exists_spell_append gap hgap
  obtain rfl := Except.ok.inj (hraw.symm.trans hraw')
  obtain ⟨u, hu, hlines'⟩ := hspaces.parseScript ht'
  exact ⟨u, hu, hlines'.trans hlines⟩

/-- A script is the text of the template of its document. -/
theorem exists_layout_of_decompile {settings : Settings} {document : Value}
    {text : List Char} (h : (decompile settings document).1 = .ok text) :
    ∃ t, (decompileTemplate settings.maxDepth document).1 = .ok t ∧
      t.layout settings.indent = .ok text := by
  replace h : ((decompileTemplate settings.maxDepth document).1.bind fun t =>
      (t.layout settings.indent).mapError .spelling) = .ok text := h
  cases ht : (decompileTemplate settings.maxDepth document).1 with
  | error e =>
    rw [ht] at h
    cases h
  | ok t =>
    rw [ht] at h
    refine ⟨t, rfl, ?_⟩
    cases htext : t.layout settings.indent with
    | error fault =>
      simp only [Except.bind, htext] at h
      cases h
    | ok text' =>
      simp only [Except.bind, htext] at h
      cases h
      rfl

/-- **Documents come back from their scripts.** Take a tree in which no reference stands where a
script has a plain name. If it has a script, with some settings, then that script is read with all
settings that allow two levels more, and compiling what is read gives the normal form of the
tree. -/
theorem toDocument_of_decompile {settings settings' : Settings} {document : Value}
    {text : List Char} (htree : document.isTree = true) (hplain : document.HasPlainNames)
    (h : (decompile settings document).1 = .ok text)
    (hdepth : settings.maxDepth + 2 ≤ settings'.maxDepth) :
    ∃ t, parseScript settings'.maxDepth text = .ok t ∧ t.toDocument = .ok document.normalForm := by
  obtain ⟨t, ht, htext⟩ := exists_layout_of_decompile h
  obtain ⟨scope, hscope, hreads⟩ := Decompile.exists_templateReads ht
  obtain ⟨rfl, hsymbols, hlimit⟩ := Decompile.Scope.eq_of_ofDocument htree hscope
  have hspell : ∃ raw, t.spell = .ok raw := by
    obtain ⟨raw, hraw, -⟩ := bind_eq_ok_iff.1 htext
    exact ⟨raw, hraw⟩
  have hreadable : t.IsReadable settings'.maxDepth :=
    hreads.isReadable htree hplain (hlimit ▸ settings.maxDepth_pos) (hlimit ▸ hdepth) hspell
  obtain ⟨t', ht', hlines⟩ := hreadable.exists_parseScript_of_layout hreads.isLegible htext
  refine ⟨t', ht', ?_⟩
  rw [← Template.toDocument_withoutLines_eq_ok_iff, hlines,
    Template.toDocument_withoutLines_eq_ok_iff]
  exact hreads.toDocument_eq hsymbols htree hplain

/-- A mapping with the given fields. -/
private abbrev mapping (fields : List (String × Value)) : Value := .map (Value.keyed fields)

/-- A document with a section and a resource key that are unknown, an attribute in one string, and
declared names in places for plain names. -/
private def diskDocument : Value :=
  mapping [
    ("Resources", mapping [
      ("Disk", mapping [("DeletionPolicy", .str "Retain"), ("Note", .int 1),
        ("Condition", .str "Large"), ("Type", .str "D")]),
      ("Host", mapping [("Properties", mapping [("Size", .single "Fn::GetAtt" (.str "Disk.Size"))]),
        ("DependsOn", .list [.str "Disk"]), ("Type", .str "H")])]),
    ("Outputs", .null), ("Extra", .bool true), ("Conditions", mapping [("Large", .bool true)])]

/-- The document with a disk comes back in normal form. -/
theorem toDocument_of_decompile_diskDocument :
    ∃ text t, (decompile { maxDepth := 1 } diskDocument).1 = .ok text ∧
      parseScript 3 text = .ok t ∧ t.toDocument = .ok (mapping [
        ("Conditions", mapping [("Large", .bool true)]),
        ("Resources", mapping [
          ("Disk", mapping [("Type", .str "D"), ("Condition", .str "Large"),
            ("DeletionPolicy", .str "Retain")]),
          ("Host", mapping [("Type", .str "H"),
            ("Properties", mapping [
              ("Size", .single "Fn::GetAtt" (.list [.str "Disk", .str "Size"]))]),
            ("DependsOn", .list [.str "Disk"])])])]) := by
  have hplain : diskDocument.HasPlainNames :=
    ⟨by decide +kernel, by decide +kernel, by decide +kernel⟩
  have hscript : (decompile { maxDepth := 1 } diskDocument).1.toOption.isSome = true := by
    decide +kernel
  cases htext : (decompile { maxDepth := 1 } diskDocument).1 with
  | error e => simp [htext, Except.toOption] at hscript
  | ok text =>
    obtain ⟨t, ht, hdocument⟩ := @toDocument_of_decompile { maxDepth := 1 } { maxDepth := 3 }
      diskDocument text (by decide +kernel) hplain htext le_rfl
    exact ⟨text, t, rfl, ht, hdocument⟩

end StackScript
