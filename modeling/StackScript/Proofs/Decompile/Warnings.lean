import StackScript.Proofs.Compile.Shape
import StackScript.Proofs.Decompile.Congruence
import StackScript.Proofs.Decompile.Documents
import StackScript.Proofs.Document.Tree
import StackScript.Proofs.Outcome

/-!
# What is left out of a script

A script has no place for unknown sections and for unknown keys of resources. Each of them gives one
warning, and that is all they do: a document and what is left of it without them are read alike,
step by step, but for the warnings. This is a relation of the steps of two readings. Values give no
warnings, so for them it is a congruence; the warnings of documents are put together from those of
their keys and of their resources.

## Main definitions

* `Value.unknownKeyWarnings`: the warnings that the keys of a document ask for.
* `Value.withoutUnknownKeys`: the document without these keys.
* `Decompile.Warns`: a step gives warnings and does otherwise the same as another one that gives
  none.

## Main results

* `Decompile.warns_resource`, `Decompile.warns_template`: the warnings of resources and documents.
* `unknown_keys_only_warn`: unknown keys are warned about in their order and have no other effect.
-/

namespace StackScript

open Decompile

/-! ### Known and unknown keys -/

namespace Value

/-- The entries of a mapping; there are none in other values. -/
def entries (v : Value) : List (Value × Value) :=
  match v.unfold with
  | .map entries => entries
  | _ => []

/-- A mapping with its entries changed; other values stay as they are. -/
def mapEntries (f : List (Value × Value) → List (Value × Value)) (v : Value) : Value :=
  match v.unfold with
  | .map entries => .map (f entries)
  | _ => v

variable {v : Value} {es : List (Value × Value)} {known : List String} {key : String}

theorem entries_of_unfold (h : v.unfold = .map es) : v.entries = es := by
  rw [entries, h]

theorem mapEntries_of_unfold (f : List (Value × Value) → List (Value × Value))
    (h : v.unfold = .map es) : v.mapEntries f = .map (f es) := by
  rw [mapEntries, h]

/-- A mapping is changed in its entries, and another value has none and stays as it is. -/
theorem mapEntries_cases (f : List (Value × Value) → List (Value × Value)) (v : Value) :
    (∃ es, v.unfold = .map es ∧ v.entries = es ∧ (v.mapEntries f).unfold = .map (f es)) ∨
      (∀ es, v.unfold ≠ .map es) ∧ v.entries = [] ∧ v.mapEntries f = v := by
  unfold entries mapEntries
  split
  next es hv => exact .inl ⟨es, hv, rfl, rfl⟩
  next hv => exact .inr ⟨hv, rfl, rfl⟩

/-- The keys of a mapping that are not known, in their order. -/
def unknownKeys (known : List String) (v : Value) : List Value :=
  (v.entries.filter fun entry => !isKnownKey known entry.1).map Prod.fst

theorem unknownKeys_of_unfold (known : List String) (h : v.unfold = .map es) :
    v.unknownKeys known = (map es).unknownKeys known := by
  rw [unknownKeys, entries_of_unfold h]
  rfl

theorem unknownKeys_cons (known : List String) (entry : Value × Value) (es : List (Value × Value)) :
    (map (entry :: es)).unknownKeys known =
      if isKnownKey known entry.1 then (map es).unknownKeys known
      else entry.1 :: (map es).unknownKeys known := by
  change (((entry :: es).filter fun entry => !isKnownKey known entry.1).map Prod.fst) = _
  rw [List.filter_cons]
  cases isKnownKey known entry.1 <;> rfl

/-- The entries of a mapping with known keys. -/
def knownEntries (known : List String) (entries : List (Value × Value)) : List (Value × Value) :=
  entries.filter fun entry => isKnownKey known entry.1

/-- Resources without their unknown keys. -/
def knownResources (resources : List (Value × Value)) : List (Value × Value) :=
  resources.map fun resource => (resource.1, resource.2.mapEntries (knownEntries resourceKeys))

/-- The value of a section, in which resources have no unknown keys. -/
def knownSection (key v : Value) : Value :=
  if isKnownKey [DeclKind.resource.sectionKey] key then v.mapEntries knownResources else v

/-- The known sections of a document, in which resources have no unknown keys. -/
def knownSections (sections : List (Value × Value)) : List (Value × Value) :=
  (knownEntries sectionOrder sections).map fun entry => (entry.1, knownSection entry.1 entry.2)

/-- A document without unknown sections and without unknown keys of resources. -/
def withoutUnknownKeys (document : Value) : Value := document.mapEntries knownSections

/-- The entries of the section of resources. -/
def resources (sections : List (Value × Value)) : List (Value × Value) :=
  ((lookup DeclKind.resource.sectionKey sections).map entries).getD []

/-- One warning for each unknown key of a resource, resource by resource. -/
def resourceWarnings (sections : List (Value × Value)) : List Warning :=
  (resources sections).flatMap fun resource =>
    (resource.2.unknownKeys resourceKeys).map (.unknownKey · resource.1.text)

/-- One warning for each unknown section of a document, and after them those of its resources. -/
def unknownKeyWarnings (document : Value) : List Warning :=
  (document.unknownKeys sectionOrder).map .unknownSection ++ resourceWarnings document.entries

theorem isKnownKey_iff {k : Value} : isKnownKey known k = true ↔ ∃ s ∈ known, k = .str s := by
  unfold isKnownKey
  split
  next s => simp
  next hk =>
    simp only [Bool.false_eq_true, false_iff, not_exists, not_and]
    exact fun s _ => hk s

theorem lookup_cons (key : String) (entry : Value × Value) (es : List (Value × Value)) :
    lookup key (entry :: es) =
      if isKnownKey [key] entry.1 then some entry.2 else lookup key es := by
  obtain ⟨k, v⟩ := entry
  cases k with
  | scalar scalar =>
    cases scalar with
    | str s => simp [lookup, isKnownKey]
    | _ => rfl
  | _ => rfl

/-- A known key is looked up among the known entries alike. -/
theorem lookup_knownEntries (hkey : key ∈ known) (es : List (Value × Value)) :
    lookup key (knownEntries known es) = lookup key es := by
  induction es with
  | nil => rfl
  | cons entry es ih =>
    rw [knownEntries, List.filter_cons, lookup_cons]
    split_ifs with hknown hentry hentry
    · rw [lookup_cons, if_pos hentry]
    · rw [lookup_cons, if_neg hentry]
      exact ih
    · obtain ⟨s, hs, hk⟩ := isKnownKey_iff.1 hentry
      rw [List.mem_singleton] at hs
      exact absurd (isKnownKey_iff.2 ⟨s, hs ▸ hkey, hk⟩) hknown
    · exact ih

theorem lookup_map (f : Value → Value → Value) (key : String) (es : List (Value × Value)) :
    lookup key (es.map fun entry => (entry.1, f entry.1 entry.2)) =
      (lookup key es).map (f (.str key)) := by
  induction es with
  | nil => rfl
  | cons entry es ih =>
    rw [List.map_cons, lookup_cons, lookup_cons]
    split_ifs with h
    · obtain ⟨s, hs, hk⟩ := isKnownKey_iff.1 h
      rw [hk, List.mem_singleton.1 hs, Option.map_some]
    · exact ih

theorem lookup_knownSections_of_ne (hkey : key ∈ sectionOrder)
    (hne : key ≠ DeclKind.resource.sectionKey) (sections : List (Value × Value)) :
    lookup key (knownSections sections) = lookup key sections := by
  have hsection : knownSection (.str key) = id := by
    funext v
    refine if_neg ?_
    rw [isKnownKey, List.contains_iff_mem, List.mem_singleton]
    exact hne
  rw [knownSections, lookup_map, lookup_knownEntries hkey, hsection, Option.map_id_fun, id]

theorem lookup_knownSections_resource (sections : List (Value × Value)) :
    lookup DeclKind.resource.sectionKey (knownSections sections) =
      (lookup DeclKind.resource.sectionKey sections).map (mapEntries knownResources) := by
  rw [knownSections, lookup_map,
    lookup_knownEntries (Template.sectionKey_mem_sectionOrder .resource)]
  rfl

theorem isKnownKey_of_mem_knownSections {sections : List (Value × Value)} :
    ∀ entry ∈ knownSections sections, isKnownKey sectionOrder entry.1 = true := by
  intro entry h
  obtain ⟨entry, hentry, rfl⟩ := List.mem_map.1 h
  exact (List.mem_filter.1 hentry).2

end Value

/-! ### Steps with and without warnings -/

namespace Decompile

variable {α β γ : Type} {ws ws' : List Warning}

/-- Where the first step succeeds it adds the given warnings, and the second step, whatever was
warned of before, gives the same and adds none. -/
def Warns (ws : List Warning) (step quiet : Decompile α) : Prop :=
  ∀ s a t, step.run.run s = (.ok a, t) → t.warnings = s.warnings ++ ws ∧
    ∀ before, quiet.run.run { s with warnings := before } = (.ok a, { t with warnings := before })

namespace Warns

theorem pure (a : α) : Warns [] (Pure.pure a) (Pure.pure a) := by
  intro s b t h
  cases h
  exact ⟨(List.append_nil _).symm, fun _ => rfl⟩

theorem bind {step quiet : Decompile α} {f f' : α → Decompile β} (h : Warns ws step quiet)
    (hf : ∀ a, Warns ws' (f a) (f' a)) : Warns (ws ++ ws') (step >>= f) (quiet >>= f') := by
  intro s b u hrun
  obtain ⟨a, t, hstep, hnext⟩ := exists_of_run_bind hrun
  obtain ⟨ht, hquiet⟩ := h s a t hstep
  obtain ⟨hu, hquiet'⟩ := hf a t b u hnext
  refine ⟨by rw [hu, ht, List.append_assoc], fun before => ?_⟩
  rw [run_bind_ok (hquiet before)]
  exact hquiet' before

theorem bind_quiet {step quiet : Decompile α} {f f' : α → Decompile β} (h : Warns ws step quiet)
    (hf : ∀ a, Warns [] (f a) (f' a)) : Warns ws (step >>= f) (quiet >>= f') := by
  rw [← List.append_nil ws]
  exact h.bind hf

theorem throw (e : DecompileError) (step : Decompile α) :
    Warns ws (throwThe DecompileError e) step := by
  intro s a t h
  cases h

theorem within {step quiet : Decompile α} (h : Warns ws step quiet) :
    Warns ws (within step) (Decompile.within quiet) := by
  intro s a t hrun
  rw [run_within] at hrun
  obtain ⟨hresult, rfl⟩ := Prod.mk.inj hrun
  obtain ⟨ht, hquiet⟩ := h { s with depth := s.depth + 1 } a _ (Prod.ext hresult rfl)
  refine ⟨ht, fun before => ?_⟩
  rw [run_within]
  dsimp only
  rw [hquiet before]

theorem mapM {f : α → Decompile γ} {f' : β → Decompile γ} {g : α → β} {ws : α → List Warning}
    (h : ∀ a, Warns (ws a) (f a) (f' (g a))) (as : List α) :
    Warns (as.flatMap ws) (as.mapM f) ((as.map g).mapM f') := by
  induction as with
  | nil => exact pure _
  | cons a as ih =>
    rw [List.map_cons, List.mapM_cons, List.mapM_cons, List.flatMap_cons]
    exact (h a).bind fun b => ih.bind_quiet fun bs => pure _

end Warns

/-- Steps that give no warnings, and do the same whatever was warned of before. -/
def quiet : Congruence where
  rel := Warns []
  pure := .pure
  bind h hf := h.bind hf
  atDepth hf s := hf s.depth s
  throw _ _ := .throw _ _
  within := .within
  tooDeep limit step := by
    intro s a t h
    exact absurd ⟨s, t, h⟩ not_gives_tooDeep

/-! ### Keys that are skipped -/

section Skipped

variable {known : List String} {warning : Value → Warning}

/-- The warning of an entry whose key is not known. -/
private def skip (known : List String) (warning : Value → Warning) (entry : Value × Value) :
    Decompile Unit :=
  if isKnownKey known entry.1 then pure () else warn (warning entry.1)

private theorem forM_skip_of_known {entries : List (Value × Value)}
    (h : ∀ entry ∈ entries, isKnownKey known entry.1 = true) :
    entries.forM (skip known warning) = pure () := by
  induction entries with
  | nil => rfl
  | cons entry entries ih =>
    rw [List.forall_mem_cons] at h
    change (skip known warning entry >>= fun _ => entries.forM (skip known warning)) = _
    rw [skip, if_pos h.1, pure_bind, ih h.2]

private theorem warns_skip (entry : Value × Value) :
    Warns (if isKnownKey known entry.1 then [] else [warning entry.1])
      (skip known warning entry) (pure ()) := by
  unfold skip
  split_ifs
  · exact .pure ()
  · intro s a t h
    cases h
    exact ⟨rfl, fun _ => rfl⟩

/-- Going through the keys of a mapping gives one warning for each unknown key, and none if all are
known. -/
private theorem warns_forM_skip (warning : Value → Warning) (entries : List (Value × Value))
    {kept : List (Value × Value)} (hkept : ∀ entry ∈ kept, isKnownKey known entry.1 = true) :
    Warns (((Value.map entries).unknownKeys known).map warning)
      (entries.forM (skip known warning)) (kept.forM (skip known warning)) := by
  rw [forM_skip_of_known hkept]
  induction entries with
  | nil => exact .pure ()
  | cons entry entries ih =>
    have h := (@warns_skip known warning entry).bind fun _ => ih
    rw [pure_bind] at h
    rw [Value.unknownKeys_cons]
    split_ifs at h ⊢
    · exact h
    · exact h

end Skipped

/-! ### Resources -/

section Scopes

variable {scope scope' : Scope} (hlimit : scope.limit ≤ scope'.limit)
  (hsymbols : scope'.symbols = scope.symbols)
include hlimit hsymbols

/-- A resource gives one warning for each unknown key. -/
theorem warns_resource (name : String) (v : Value) :
    Warns ((v.unknownKeys resourceKeys).map (.unknownKey · name)) (resource scope name v)
      (resource scope' name (v.mapEntries (Value.knownEntries resourceKeys))) := by
  unfold resource
  split
  next entries hv =>
    have hlookup {key : String} (hkey : key ∈ resourceKeys) :=
      Value.lookup_knownEntries hkey entries
    have htype : resourceType name (Value.knownEntries resourceKeys entries) =
        resourceType name entries := by
      rw [resourceType, hlookup (by decide), resourceType]
    have hproperties : properties scope' name (Value.knownEntries resourceKeys entries) =
        properties scope' name entries := by
      rw [properties, hlookup (by decide), properties]
    have hmodifiers : modifiers scope' (Value.knownEntries resourceKeys entries) =
        modifiers scope' entries := by
      have hpresent : modifierNames.filterMap (fun modifier =>
            (Value.lookup modifier (Value.knownEntries resourceKeys entries)).map (modifier, ·)) =
          modifierNames.filterMap fun modifier =>
            (Value.lookup modifier entries).map (modifier, ·) :=
        List.filterMap_congr fun modifier h => by rw [hlookup (List.mem_append_right _ h)]
      rw [modifiers, hpresent, modifiers]
    have hkept : ∀ entry ∈ Value.knownEntries resourceKeys entries,
        isKnownKey resourceKeys entry.1 = true := fun _ h => (List.mem_filter.1 h).2
    have hskip := warns_forM_skip (.unknownKey · name) entries hkept
    rw [Value.mapEntries_of_unfold _ hv, Value.unknownKeys_of_unfold _ hv]
    change Warns _ _ (resourceType name (Value.knownEntries resourceKeys entries) >>= _)
    rw [htype]
    refine Warns.bind (quiet.rel_resourceType name entries) fun type =>
      hskip.bind_quiet fun _ => ?_
    rw [hproperties, hmodifiers]
    exact quiet.bind (quiet.rel_properties hlimit hsymbols name trivial) fun _ =>
      quiet.bind (quiet.rel_modifiers hlimit hsymbols trivial) fun _ => .pure _
  · exact .throw _ _

/-! ### Documents -/

/-- The assignment of an entry of a section. -/
private def assignment (scope : Scope) (kind : DeclKind) (entry : String × Value) :
    Decompile Statement :=
  return .assign entry.1 (← declaration scope kind entry.1 entry.2) 0

/-- The section of resources gives the warnings of each of its entries. -/
theorem warns_assignments_resource
    (hentries : scope'.entries = Value.knownSections scope.entries) :
    Warns (Value.resourceWarnings scope.entries) (assignments scope .resource)
      (assignments scope' .resource) := by
  let known (entry : String × Value) : String × Value :=
    (entry.1, entry.2.mapEntries (Value.knownEntries resourceKeys))
  have hentry (entry : String × Value) :
      Warns ((entry.2.unknownKeys resourceKeys).map (.unknownKey · entry.1))
        (assignment scope .resource entry) (assignment scope' .resource (known entry)) :=
    (warns_resource hlimit hsymbols entry.1 entry.2).bind_quiet fun _ => .pure _
  unfold assignments sectionEntries Value.resourceWarnings Value.resources
  rw [hentries, Value.lookup_knownSections_resource]
  cases Value.lookup DeclKind.resource.sectionKey scope.entries with
  | none => exact .pure []
  | some v =>
    rw [Option.map_some, Option.map_some, Option.map_some, Option.map_some, Option.getD_some]
    rcases v.mapEntries_cases Value.knownResources with ⟨es, hv, hes, hknown⟩ | ⟨hv, hes, hknown⟩
    · have h := Warns.mapM hentry (es.map fun entry => (entry.1.text, entry.2))
      rw [List.flatMap_map, List.map_map] at h
      rw [hv, hes, hknown]
      dsimp only
      rw [pure_bind, pure_bind, Value.knownResources, List.map_map]
      exact h
    · rw [hes, hknown]
      split
      next h => cases h
      · exact .pure []
      next h => exact absurd (Option.some.inj h) (hv _)
      · exact .throw _ _

/-- The warnings of the sections of declarations are those of the resources. -/
theorem warns_assignments (hentries : scope'.entries = Value.knownSections scope.entries)
    (kind : DeclKind) :
    Warns (if kind = .resource then Value.resourceWarnings scope.entries else [])
      (assignments scope kind) (assignments scope' kind) := by
  split_ifs with hkind
  · rw [hkind]
    exact warns_assignments_resource hlimit hsymbols hentries
  · refine quiet.rel_assignments trivial ?_ fun name _ =>
      quiet.rel_declaration_of_ne hlimit hsymbols hkind name
    rw [hentries]
    refine Value.lookup_knownSections_of_ne (Template.sectionKey_mem_sectionOrder kind) ?_ _
    revert hkind
    cases kind <;> decide

/-- A document gives one warning for each unknown section, and then those of its resources. -/
theorem warns_template (hentries : scope'.entries = Value.knownSections scope.entries) :
    Warns (Value.map scope.entries).unknownKeyWarnings (template scope) (template scope') := by
  have hknown : ∀ entry ∈ scope'.entries, isKnownKey sectionOrder entry.1 = true := by
    rw [hentries]
    exact Value.isKnownKey_of_mem_knownSections
  have hheaders : Warns [] (headers scope) (headers scope') := by
    refine quiet.rel_headers hlimit hsymbols trivial fun kind => ?_
    rw [hentries]
    refine Value.lookup_knownSections_of_ne (Template.keyword_mem_sectionOrder kind) ?_ _
    cases kind <;> decide
  have hassignments : Warns (Value.resourceWarnings scope.entries)
      (declarationOrder.mapM (assignments scope)) (declarationOrder.mapM (assignments scope')) := by
    have h := Warns.mapM (g := id) (warns_assignments hlimit hsymbols hentries) declarationOrder
    rw [List.map_id] at h
    simpa [declarationOrder] using h
  have hsections := warns_forM_skip .unknownSection scope.entries hknown
  have h := hsections.bind fun _ => hheaders.bind fun first =>
    hassignments.bind_quiet fun rest => .pure (Template.mk (first ++ rest.flatten))
  rw [Value.unknownKeyWarnings]
  exact h

end Scopes

end Decompile

/-! ### Scripts of documents -/

/-- A section declares the same names if resources lose their unknown keys. -/
theorem SymbolTable.sectionNames?_knownSections (sections : List (Value × Value))
    (kind : DeclKind) :
    sectionNames? (Value.knownSections sections) kind = sectionNames? sections kind := by
  unfold sectionNames?
  by_cases hkind : kind = .resource
  · rw [hkind, Value.lookup_knownSections_resource]
    cases Value.lookup DeclKind.resource.sectionKey sections with
    | none => rfl
    | some v =>
      rw [Option.map_some, Option.map_some, Option.map_some]
      rcases v.mapEntries_cases Value.knownResources with ⟨es, hv, -, hknown⟩ | ⟨-, -, hknown⟩
      · rw [hv, hknown]
        dsimp only
        rw [Value.knownResources, List.mapM_map]
        rfl
      · rw [hknown]
  · have hne : kind.sectionKey ≠ DeclKind.resource.sectionKey := by
      revert hkind
      cases kind <;> decide
    rw [Value.lookup_knownSections_of_ne (Template.sectionKey_mem_sectionOrder kind) hne]

namespace Decompile

theorem Scope.ofDocument_withoutUnknownKeys {limit : Nat} {document : Value} {scope : Scope}
    (h : Scope.ofDocument limit document = .ok scope) :
    Scope.ofDocument limit document.withoutUnknownKeys =
      .ok { scope with entries := Value.knownSections scope.entries } := by
  obtain ⟨hdocument, hsymbols, hlimit⟩ := Scope.ofDocument_eq_ok_iff.1 h
  rw [Scope.ofDocument_eq_ok_iff, Value.withoutUnknownKeys,
    Value.mapEntries_of_unfold _ hdocument]
  refine ⟨rfl, ?_, hlimit⟩
  rw [← hsymbols]
  simp only [SymbolTable.ofDocument?, SymbolTable.sectionNames?_knownSections]

end Decompile

theorem decompileTemplate_of_scope {limit : Nat} {document : Value} {scope : Scope}
    (h : Scope.ofDocument limit document = .ok scope) :
    decompileTemplate limit document =
      (((template scope).run.run {}).1, ((template scope).run.run {}).2.warnings) := by
  rw [decompileTemplate, h]
  rfl

/-- Reading a document gives the warnings of its unknown keys, and without these keys the same
template. -/
theorem decompileTemplate_withoutUnknownKeys {limit : Nat} {document : Value} {t : Template}
    {warnings : List Warning} (h : decompileTemplate limit document = (.ok t, warnings)) :
    warnings = document.unknownKeyWarnings ∧
      decompileTemplate limit document.withoutUnknownKeys = (.ok t, []) := by
  cases hscope : Scope.ofDocument limit document with
  | error e =>
    rw [decompileTemplate, hscope] at h
    cases h
  | ok scope =>
    have hdocument := (Scope.ofDocument_eq_ok_iff.1 hscope).1
    rw [decompileTemplate_of_scope hscope] at h
    rw [decompileTemplate_of_scope (Scope.ofDocument_withoutUnknownKeys hscope)]
    have hwarns := @warns_template scope { scope with entries := Value.knownSections scope.entries }
      le_rfl rfl rfl
    obtain ⟨hwarnings, hquiet⟩ := hwarns {} t _ (Prod.ext (Prod.mk.inj h).1 rfl)
    rw [hquiet []]
    refine ⟨?_, rfl⟩
    rw [← (Prod.mk.inj h).2, hwarnings]
    simp only [Value.unknownKeyWarnings, Value.unknownKeys_of_unfold _ hdocument,
      Value.entries_of_unfold hdocument]
    rfl

/-- **Unknown keys are warned about and have no other effect.** If a document has a script, then
reading it gives one warning for each unknown section, and then one for each unknown key of a
resource, in the order in which they stand in the document. Without these keys the document has the
same script, and there are no warnings. -/
theorem unknown_keys_only_warn {settings : Settings} {document : Value} {text : List Char}
    {warnings : List Warning} (h : decompile settings document = (.ok text, warnings)) :
    warnings = document.unknownKeyWarnings ∧
      decompile settings document.withoutUnknownKeys = (.ok text, []) := by
  unfold decompile at h ⊢
  cases hread : decompileTemplate settings.maxDepth document with
  | mk result ws =>
    rw [hread] at h
    obtain ⟨hlayout, rfl⟩ := Prod.mk.inj h
    cases result with
    | error e => cases hlayout
    | ok t =>
      obtain ⟨hwarnings, hknown⟩ := decompileTemplate_withoutUnknownKeys hread
      rw [hknown]
      exact ⟨hwarnings, Prod.ext hlayout rfl⟩

/-- A document with an unknown section, and with a resource that has unknown keys: one that is a
string, and a number. -/
private def annotatedDocument : Value :=
  .map (Value.keyed [("Comment", .str "draft"), ("Resources", .single "Disk" (.map
    [(.str "Type", .str "AWS::EC2::Volume"), (.int 7, .null), (.str "Owner", .str "me"),
      (.str "DeletionPolicy", .str "Retain")])), ("Hooks", .null)])

theorem annotatedDocument_only_warns :
    ∃ text, decompile {} annotatedDocument = (.ok text, [.unknownSection (.str "Comment"),
        .unknownSection (.str "Hooks"), .unknownKey (.int 7) "Disk",
        .unknownKey (.str "Owner") "Disk"]) ∧
      decompile {} annotatedDocument.withoutUnknownKeys = (.ok text, []) := by
  have hsome : (decompile {} annotatedDocument).1.toOption.isSome = true := by decide +kernel
  have hexpected : annotatedDocument.unknownKeyWarnings = [.unknownSection (.str "Comment"),
      .unknownSection (.str "Hooks"), .unknownKey (.int 7) "Disk",
      .unknownKey (.str "Owner") "Disk"] := rfl
  obtain ⟨text, htext⟩ := exists_ok_of_isSome hsome
  have hresult : decompile {} annotatedDocument = (.ok text, (decompile {} annotatedDocument).2) :=
    Prod.ext htext rfl
  obtain ⟨hwarnings, hknown⟩ := unknown_keys_only_warn hresult
  exact ⟨text, Prod.ext htext (hwarnings.trans hexpected), hknown⟩

end StackScript
