import StackScript.Proofs.Decompile.Refines
import StackScript.Proofs.Decompile.Shaped

/-!
# Why documents have no script

Reading a document fails in three ways. The document has something that a script cannot express, a
key of one of its sections of declarations is no name, or an integer has too many digits to be
written. Where all integers can be written the last one does not happen, and what was read has a
spelling. So all that is left, besides what a script cannot express, is a section with such a key.

## Main definitions

* `Decompile.OnlyRejects`: a step fails only because of what a script cannot express, and
  `Decompile.rejecting`, that this carries over.
* `Value.hasUnnamedDeclaration`: whether a key of a section of declarations is no name.

## Main results

* `Value.isWritable_unfold`: unfolding a knot makes no integer longer.
* `Decompile.onlyRejects_template`: reading a document whose integers can be written.
* `Decompile.TemplateReads.exists_spell`: what is read from such a document has a spelling.
* `decompile_sectionKey_iff_and_decode`: how writing the script of a document fails.
-/

namespace StackScript

/-! ### Integers that can be written -/

namespace Value

@[simp] theorem isWritable_list_iff {items : List Value} :
    isWritable (.list items) = true ↔ ∀ item ∈ items, isWritable item = true := by
  rw [isWritable]
  induction items with
  | nil => simp [areWritable]
  | cons item items ih => simp [areWritable, ih]

@[simp] theorem isWritable_map_iff {entries : List (Value × Value)} :
    isWritable (.map entries) = true ↔
      ∀ entry ∈ entries, isWritable entry.1 = true ∧ isWritable entry.2 = true := by
  rw [isWritable]
  induction entries with
  | nil => simp [areWritableEntries]
  | cons entry entries ih => simp [areWritableEntries, ih]

@[simp] theorem isWritable_str (s : String) : isWritable (.str s) = true := by simp [isWritable]

section Replace

variable {label : Nat} {replacement : Value}

mutual

/-- What stands in place of links can be written, so the result can. -/
theorem isWritable_replace (hr : replacement.isWritable = true) (v : Value)
    (h : v.isWritable = true) :
    (replace label replacement v).isWritable = true := by
  cases v with
  | list items => exact areWritable_replaceAll hr items h
  | map entries => exact areWritableEntries_replaceEntries hr entries h
  | tuple items => exact areWritable_replaceAll hr items h
  | knot other body =>
    rw [replace]
    split_ifs
    · exact h
    · exact isWritable_replace hr body h
  | link other =>
    rw [replace]
    split_ifs
    · exact hr
    · exact h
  | _ => simpa [replace] using h

private theorem areWritable_replaceAll (hr : replacement.isWritable = true) (items : List Value)
    (h : areWritable items = true) :
    areWritable (replaceAll label replacement items) = true := by
  cases items with
  | nil => rfl
  | cons item rest =>
    rw [areWritable, Bool.and_eq_true] at h
    rw [replaceAll, areWritable, isWritable_replace hr item h.1,
      areWritable_replaceAll hr rest h.2]
    rfl

private theorem areWritableEntries_replaceEntries (hr : replacement.isWritable = true)
    (entries : List (Value × Value)) (h : areWritableEntries entries = true) :
    areWritableEntries (replaceEntries label replacement entries) = true := by
  cases entries with
  | nil => rfl
  | cons entry rest =>
    obtain ⟨key, value⟩ := entry
    rw [areWritableEntries, Bool.and_eq_true, Bool.and_eq_true] at h
    rw [replaceEntries, areWritableEntries, h.1.1, isWritable_replace hr value h.1.2,
      areWritableEntries_replaceEntries hr rest h.2]
    rfl

end

end Replace

/-- Unfolding a knot makes no integer longer. -/
theorem isWritable_unfold {v : Value} (h : v.isWritable = true) : v.unfold.isWritable = true := by
  cases v with
  | knot label body => exact isWritable_replace h body h
  | _ => exact h

/-- The integers inside a value can be written if all of its integers can. -/
theorem inherits_isWritable : Inherits fun v => v.isWritable = true where
  unfold := isWritable_unfold
  items := isWritable_list_iff.1
  entries := isWritable_map_iff.1
  str := isWritable_str

end Value

namespace Decompile

variable {α β : Type}

/-! ### Steps -/

/-- A step fails only because of what a script cannot express. -/
def OnlyRejects (m : Decompile α) : Prop :=
  ∀ (s u : DecompileState) (e : DecompileError), m.run.run s = (.error e, u) →
    ∃ fault, e = .decode fault

theorem OnlyRejects.bind {m : Decompile α} {f : α → Decompile β} (h : OnlyRejects m)
    (hf : ∀ a, OnlyRejects (f a)) : OnlyRejects (m >>= f) := by
  intro s u e hrun
  cases hm : m.run.run s with
  | mk r t =>
    simp only [ExceptT.run_bind, StateT.run_bind, hm] at hrun
    cases r with
    | error e' =>
      cases hrun
      exact h s _ _ hm
    | ok a => exact hf a t u e hrun

theorem OnlyRejects.within {m : Decompile α} (h : OnlyRejects m) : OnlyRejects (within m) := by
  intro s u e hrun
  rw [run_within] at hrun
  exact h _ _ e (Prod.ext (Prod.mk.inj hrun).1 rfl)

/-- That a step fails only because of what a script cannot express carries over, where integers can
be written. -/
def rejecting : WarningCongruence where
  rel step _ := OnlyRejects step
  known v := v.isWritable = true
  inherits := Value.inherits_isWritable
  pure _ := by rintro s u e ⟨⟩
  bind := .bind
  atDepth hf s := hf s.depth s
  throw _ h := by
    rintro s u e ⟨⟩
    obtain hfault | ⟨v, hv, hwritable⟩ := h
    · exact hfault
    · exact absurd (hv.symm.trans hwritable) (by decide)
  within := .within
  tooDeep limit _ := by
    rintro s u e ⟨⟩
    exact ⟨_, rfl⟩
  warn _ := by rintro s u e ⟨⟩

/-- Reading a document whose integers can be written fails only because of what a script cannot
express. -/
theorem onlyRejects_template {scope : Scope} (h : (Value.map scope.entries).isWritable = true) :
    OnlyRejects (template scope) :=
  rejecting.rel_template (Nat.le_refl scope.limit) rfl h rfl

/-! ### Spellings of what is read -/

theorem determines_isWritable :
    Determines (fun v => v.isWritable = true) Scalar.IsSpellable fun _ => True where
  toInherits := Value.inherits_isWritable
  literal {s} hs hfinite := by
    cases s with
    | int n => simpa [Value.isWritable, Scalar.IsSpellable] using hs
    | float x => exact hfinite x rfl
    | _ => trivial
  names _ _ := trivial

/-- What is read from a document whose integers can be written has a spelling. -/
theorem TemplateReads.exists_spell {scope : Scope} {t : Template} (h : TemplateReads scope t)
    (hentries : (Value.map scope.entries).isWritable = true) : ∃ text, t.spell = .ok text :=
  Template.exists_spell_iff.2 (determines_isWritable.forall_statements h hentries
    (fun _ _ _ hv he => (determines_isWritable.shaped_of_headerReads hv he).exists_spell)
    fun _ _ _ _ hv he => (determines_isWritable.shaped_of_declarationReads hv he).exists_spell)

end Decompile

/-! ### Names of declarations -/

/-- Whether a key of a section of declarations is no name. -/
def Value.hasUnnamedDeclaration (document : Value) : Bool :=
  match document.unfold with
  | .map entries => DeclKind.all.any fun kind =>
    match (lookup kind.sectionKey entries).map unfold with
    | some (.map inner) => inner.any fun entry => (SymbolTable.nameOfKey? entry.1).isNone
    | _ => false
  | _ => false

namespace SymbolTable

private theorem mapM_nameOfKey?_eq_none_iff {entries : List (Value × Value)} :
    (entries.mapM fun entry => nameOfKey? entry.1) = none ↔
      (entries.any fun entry => (nameOfKey? entry.1).isNone) = true := by
  induction entries with
  | nil => simp
  | cons entry entries ih =>
    rw [List.mapM_cons, List.any_cons, Bool.or_eq_true, ← ih]
    cases nameOfKey? entry.1 with
    | none => simp
    | some name =>
      generalize (entries.mapM fun entry => nameOfKey? entry.1) = rest
      cases rest <;> simp

private theorem sectionNames?_eq_none_iff {entries : List (Value × Value)} {kind : DeclKind} :
    sectionNames? entries kind = none ↔
      (match (Value.lookup kind.sectionKey entries).map Value.unfold with
        | some (.map inner) => inner.any fun entry => (nameOfKey? entry.1).isNone
        | _ => false) = true := by
  unfold sectionNames?
  generalize (Value.lookup kind.sectionKey entries).map Value.unfold = found
  cases found with
  | none => simp
  | some v =>
    cases v with
    | map inner => exact mapM_nameOfKey?_eq_none_iff
    | _ => simp

/-- There is no table of the declared names if a section has a key that is no name. -/
theorem ofDocument?_eq_none_iff {document : Value} {entries : List (Value × Value)}
    (h : document.unfold = .map entries) :
    ofDocument? entries = none ↔ document.hasUnnamedDeclaration = true := by
  have hnone : ofDocument? entries = none ↔ ∃ kind, sectionNames? entries kind = none := by
    constructor
    · intro hnone
      by_contra hsome
      choose names hnames using fun kind =>
        Option.ne_none_iff_exists'.1 (not_exists.1 hsome kind)
      simp [ofDocument?, hnames] at hnone
    · rintro ⟨kind, hkind⟩
      cases kind <;> simp [ofDocument?, hkind]
  have hall (kind : DeclKind) : kind ∈ DeclKind.all := by cases kind <;> decide
  simp only [hnone, Value.hasUnnamedDeclaration, h, List.any_eq_true, sectionNames?_eq_none_iff,
    hall, true_and]

end SymbolTable

/-! ### Scripts -/

private theorem decompile_of_error {settings : Settings} {document : Value} {e : DecompileError}
    (h : Decompile.Scope.ofDocument settings.maxDepth document = .error e) :
    (decompile settings document).1 = .error e := by
  simp [decompile, decompileTemplate, h, Except.bind]

/-- A document that can be read has a script, or something that a script cannot express. -/
private theorem decompile_of_scope {settings : Settings} {document : Value}
    {scope : Decompile.Scope}
    (h : Decompile.Scope.ofDocument settings.maxDepth document = .ok scope)
    (hwritable : (Value.map scope.entries).isWritable = true) :
    (∃ text, (decompile settings document).1 = .ok text) ∨
      ∃ fault, (decompile settings document).1 = .error (.decode fault) := by
  have hresult : (decompile settings document).1 =
      ((Decompile.template scope).run.run {}).1.bind fun t =>
        (t.layout settings.indent).mapError .spelling := by
    simp only [decompile, decompileTemplate, h]
    rfl
  rw [hresult]
  cases hrun : (Decompile.template scope).run.run {} with
  | mk result u =>
    cases result with
    | error e =>
      obtain ⟨fault, rfl⟩ := Decompile.onlyRejects_template hwritable _ _ _ hrun
      exact .inr ⟨fault, rfl⟩
    | ok t =>
      have hreads := Decompile.templateReads_of_gives ⟨_, _, hrun⟩
      obtain ⟨raw, hraw⟩ := hreads.exists_spell hwritable
      refine .inl ⟨if raw.isEmpty then [] else Layout.layout settings.indent raw ++ ['\n'], ?_⟩
      simp only [Except.bind, Template.layout, hraw]
      rfl

/-- Where a document cannot be read, a key is no name or the document is no mapping. -/
private theorem hasUnnamedDeclaration_of_error {limit : Nat} {document : Value} {e : DecompileError}
    (h : Decompile.Scope.ofDocument limit document = .error e) :
    document.hasUnnamedDeclaration = true ∧ e = .sectionKey ∨
      document.hasUnnamedDeclaration = false ∧ ∃ fault, e = .decode fault := by
  unfold Decompile.Scope.ofDocument at h
  split at h
  next entries hentries =>
    split at h <;> cases h
    next hnone => exact .inl ⟨(SymbolTable.ofDocument?_eq_none_iff hentries).1 hnone, rfl⟩
  next hmap =>
    cases h
    refine .inr ⟨?_, _, rfl⟩
    unfold Value.hasUnnamedDeclaration
    split
    next entries hentries => exact absurd hentries (hmap entries)
    · rfl

/-- **How writing the script of a document fails.** If all integers of a document can be written,
then it fails because of a name exactly if a key of a section of declarations is no name. In all
other cases the document has a script, or something that a script cannot express. -/
theorem decompile_sectionKey_iff_and_decode {settings : Settings} {document : Value}
    (hwritable : document.isWritable = true) :
    ((decompile settings document).1 = .error .sectionKey ↔
        document.hasUnnamedDeclaration = true) ∧
      (document.hasUnnamedDeclaration = false →
        (∃ text, (decompile settings document).1 = .ok text) ∨
          ∃ fault, (decompile settings document).1 = .error (.decode fault)) := by
  cases hscope : Decompile.Scope.ofDocument settings.maxDepth document with
  | error e =>
    rw [decompile_of_error hscope]
    obtain ⟨hunnamed, rfl⟩ | ⟨hnamed, fault, rfl⟩ := hasUnnamedDeclaration_of_error hscope
    · simp [hunnamed]
    · simp [hnamed]
  | ok scope =>
    obtain ⟨hentries, hsymbols, -⟩ := Decompile.Scope.ofDocument_eq_ok_iff.1 hscope
    have hnamed : document.hasUnnamedDeclaration = false := by
      rw [Bool.eq_false_iff, Ne, ← SymbolTable.ofDocument?_eq_none_iff hentries, hsymbols]
      simp
    have hscript := decompile_of_scope hscope (hentries ▸ Value.isWritable_unfold hwritable)
    refine ⟨iff_of_false ?_ (by simp [hnamed]), fun _ => hscript⟩
    obtain ⟨text, htext⟩ | ⟨fault, hfault⟩ := hscript
    · simp [htext]
    · simp [hfault]

/-- A document with a parameter that has no name but a number. -/
private def numberedDocument : Value :=
  .single "Parameters" (.map [(.int 1, .single "Type" (.str "String"))])

/-- The document with a number for a name fails because of that name. -/
theorem decompile_numberedDocument_sectionKey :
    numberedDocument.isWritable = true ∧ numberedDocument.hasUnnamedDeclaration = true ∧
      (decompile {} numberedDocument).1 = .error .sectionKey := by
  have hwritable : numberedDocument.isWritable = true := by decide +kernel
  have hunnamed : numberedDocument.hasUnnamedDeclaration = true := by decide +kernel
  exact ⟨hwritable, hunnamed,
    (@decompile_sectionKey_iff_and_decode {} _ hwritable).1.2 hunnamed⟩

/-- The document with a number for a name has no script, and nothing in it that a script cannot
express is found. -/
theorem decompile_numberedDocument_ne_decode :
    numberedDocument.isWritable = true ∧
      ¬ ((∃ text, (decompile {} numberedDocument).1 = .ok text) ∨
        ∃ fault, (decompile {} numberedDocument).1 = .error (.decode fault)) := by
  have herror : (decompile {} numberedDocument).1 = .error .sectionKey := by decide +kernel
  refine ⟨by decide +kernel, ?_⟩
  rw [herror]
  simp

end StackScript
