import StackScript.Proofs.Compile.Agreement
import StackScript.Proofs.Compile.Shape

/-!
# Statements are independent

A statement is compiled by itself, with a table of names that does not depend on the order of the
statements. So the order of statements shows only in the order of the entries in sections of
declarations, and a declaration whose name occurs nowhere else adds its entry and changes nothing.

## Main definitions

* `SameSection`, `SameDocument`: sections and documents up to the order of declarations.
* `AddsEntry`: a document with one more entry in a section.

## Main results

* `toDocument_of_perm`: statements in another order compile to the same document up to the order of
  declarations.
* `addsEntry_of_fresh`: an unrelated declaration adds one entry to the document.
-/

namespace StackScript

open Value (keyed)

/-! ### The order of statements -/

/-- Two sections that are the same mapping: those of a header are equal, and those of a kind of
declaration hold the same entries in any order, with different names. -/
inductive SameSection : String × Value → String × Value → Prop
  | header (kind : Header) (v : Value) : SameSection (kind.keyword, v) (kind.keyword, v)
  | declarations (kind : DeclKind) {fields fields' : List (String × Value)}
      (hperm : fields.Perm fields') (hnames : (fields.map Prod.fst).Nodup) :
      SameSection (kind.sectionKey, .map (keyed fields)) (kind.sectionKey, .map (keyed fields'))

/-- Two documents with the same sections in the same order, up to the order of declarations. -/
def SameDocument (document document' : Value) : Prop :=
  ∃ sections sections', document = .map (keyed sections) ∧ document' = .map (keyed sections') ∧
    List.Forall₂ SameSection sections sections'

namespace Template

variable {t t' : Template}

theorem declares_of_perm (h : t'.statements.Perm t.statements) {kind : DeclKind} {x : String} :
    t'.Declares kind x ↔ t.Declares kind x :=
  ((h.filterMap _).map Prod.fst).mem_iff

/-- The table of names does not depend on the order of the statements. -/
theorem agreeOn_of_perm (h : t'.statements.Perm t.statements) (x : String) :
    (SymbolTable.ofTemplate t').AgreeOn (.ofTemplate t) x := fun kind => by
  rw [mem_names_iff, mem_names_iff, declares_of_perm h]

theorem mapM_toEntry_of_perm (h : t'.statements.Perm t.statements) :
    t'.statements.mapM (Statement.toEntry (.ofTemplate t')) =
      t'.statements.mapM (Statement.toEntry (.ofTemplate t)) :=
  mapM_congr fun _ _ => Statement.toEntry_congr fun _ _ _ _ x _ => agreeOn_of_perm h x

/-- A header comes at most once, so there is at most one entry for it. -/
theorem IsWellFormed.length_headers_le (h : t.IsWellFormed) {entries : List Entry}
    (hentries : t.statements.mapM (Statement.toEntry (.ofTemplate t)) = .ok entries)
    (kind : Header) :
    (entries.filterMap fun
      | .header k v => if k = kind then some v else none
      | .declaration .. => none).length ≤ 1 := by
  have hcount : (t.headers.filterMap fun d => if d.1 = kind then some d.2 else none).length =
      (t.headers.map Prod.fst).count kind := by
    rw [List.count_eq_countP, List.countP_map, List.length_filterMap_eq_countP]
    congr 1
    funext d
    by_cases hd : d.1 = kind <;> simp [hd]
  refine (h.forall₂_headers hentries kind).length_eq.ge.trans ?_
  rw [hcount]
  exact List.nodup_iff_count_le_one.1 h.headers kind

end Template

private theorem eq_of_perm_of_length_le_one {α : Type} {xs ys : List α} (h : xs.Perm ys)
    (hlength : ys.length ≤ 1) : xs = ys := by
  match ys with
  | [] => exact h.eq_nil
  | [y] => exact h.eq_singleton

namespace Template.IsWellFormed

variable {t : Template} {entries entries' : List Entry}

theorem headerValue?_of_perm (h : t.IsWellFormed)
    (hentries : t.statements.mapM (Statement.toEntry (.ofTemplate t)) = .ok entries)
    (hperm : entries'.Perm entries) (kind : Header) :
    headerValue? entries' kind = headerValue? entries kind :=
  congrArg List.getLast?
    (eq_of_perm_of_length_le_one (hperm.filterMap _) (h.length_headers_le hentries kind))

theorem nodup_declaredFields (h : t.IsWellFormed)
    (hentries : t.statements.mapM (Statement.toEntry (.ofTemplate t)) = .ok entries)
    (kind : DeclKind) : ((declaredFields entries kind).map Prod.fst).Nodup := by
  rw [Value.map_fst_eq_of_forall₂
    ((h.forall₂_declaredFields hentries kind).flip.imp fun _ _ h => h.1)]
  exact h.names kind

end Template.IsWellFormed

/-- A section of declarations with different names holds them side by side, unless it is left
out. -/
theorem sectionValue?_eq {entries : List Entry} {kind : DeclKind}
    (hnodup : ((declaredFields entries kind).map Prod.fst).Nodup) :
    sectionValue? entries kind =
      if kind = .resource ∨ declaredFields entries kind ≠ [] then
        some (.map (keyed (declaredFields entries kind)))
      else none := by
  unfold sectionValue?
  cases hfields : declaredFields entries kind with
  | nil => simp
  | cons field fields =>
    rw [hfields] at hnodup
    simp [Value.ofFields_eq_map hnodup]

/-- Entries in another order add up to the same document, up to the order of declarations. -/
theorem Template.IsWellFormed.sameDocument_of_perm {t : Template} {entries entries' : List Entry}
    (h : t.IsWellFormed)
    (hentries : t.statements.mapM (Statement.toEntry (.ofTemplate t)) = .ok entries)
    (hperm : entries'.Perm entries) :
    SameDocument (documentOfEntries entries) (documentOfEntries entries') := by
  refine ⟨_, _, documentOfEntries_eq entries, documentOfEntries_eq entries', ?_⟩
  refine forall₂_filterMap (R := Eq) (List.forall₂_refl _) fun key hkey _ hkey' => ?_
  subst hkey'
  obtain ⟨kind, rfl⟩ | ⟨kind, rfl⟩ := Template.sectionOrder_cases hkey
  · rw [documentSection_keyword, documentSection_keyword, h.headerValue?_of_perm hentries hperm]
    cases headerValue? entries kind with
    | none => exact .inl ⟨rfl, rfl⟩
    | some v => exact .inr ⟨_, _, rfl, rfl, .header kind v⟩
  · have hnodup := h.nodup_declaredFields hentries kind
    have hfields : (declaredFields entries' kind).Perm (declaredFields entries kind) :=
      hperm.filterMap _
    have hnil : declaredFields entries' kind ≠ [] ↔ declaredFields entries kind ≠ [] :=
      not_congr ⟨fun hnil => (hnil ▸ hfields).symm.eq_nil, fun hnil => (hnil ▸ hfields).eq_nil⟩
    rw [documentSection_sectionKey, documentSection_sectionKey, sectionValue?_eq hnodup,
      sectionValue?_eq ((hfields.map Prod.fst).nodup_iff.2 hnodup)]
    by_cases hkind : kind = .resource ∨ declaredFields entries kind ≠ []
    · rw [if_pos hkind, if_pos (hkind.imp_right hnil.2)]
      exact .inr ⟨_, _, rfl, rfl, .declarations kind hfields.symm hnodup⟩
    · rw [if_neg hkind, if_neg (hkind ∘ Or.imp_right hnil.1)]
      exact .inl ⟨rfl, rfl⟩

/-- **The order of statements does not matter.** The statements of a script that is read have a
document in any order or in none, and the documents are the same mapping: they differ at most in the
order of the entries in sections of declarations. -/
theorem toDocument_of_perm {limit : Nat} {text : List Char} {t t' : Template}
    (h : parseScript limit text = .ok t) (hperm : t'.statements.Perm t.statements) :
    ((∃ document', t'.toDocument = .ok document') ↔ ∃ document, t.toDocument = .ok document) ∧
      ∀ document document', t.toDocument = .ok document → t'.toDocument = .ok document' →
        SameDocument document document' := by
  have hwell := isWellFormed_of_parseScript h
  have hentries' : t'.toDocument =
      documentOfEntries <$> t'.statements.mapM (Statement.toEntry (.ofTemplate t)) := by
    rw [← Template.mapM_toEntry_of_perm hperm]
    exact bind_pure_comp ..
  have hentries : t.toDocument =
      documentOfEntries <$> t.statements.mapM (Statement.toEntry (.ofTemplate t)) :=
    bind_pure_comp ..
  rw [hentries, hentries']
  refine ⟨?_, fun document document' hdocument hdocument' => ?_⟩
  · rw [exists_map_eq_ok_iff, exists_map_eq_ok_iff]
    constructor
    · rintro ⟨entries', he'⟩
      obtain ⟨entries, he, -⟩ := exists_mapM_of_perm hperm.symm he'
      exact ⟨entries, he⟩
    · rintro ⟨entries, he⟩
      obtain ⟨entries', he', -⟩ := exists_mapM_of_perm hperm he
      exact ⟨entries', he'⟩
  · obtain ⟨entries, he, rfl⟩ := map_eq_ok_iff.1 hdocument
    obtain ⟨entries', he', rfl⟩ := map_eq_ok_iff.1 hdocument'
    obtain ⟨other, hother, hsame⟩ := exists_mapM_of_perm hperm he
    cases hother.symm.trans he'
    exact hwell.sameDocument_of_perm he hsame

/-- A script with a name of two kinds, a header, and references before the declarations. -/
private def forwardScript : List Char :=
  "o=Output{v:[x,If(x,x,r.A)]}\nTransform 't'\n".toList ++
    "x=Condition true\nx=Parameter{}\nr=Resource T".toList

/-- The script with references before the declarations, backwards. -/
theorem toDocument_reversed_forwardScript :
    ∃ t document document', parseScript 4 forwardScript = .ok t ∧ t.toDocument = .ok document ∧
      (⟨t.statements.reverse⟩ : Template).toDocument = .ok document' ∧
      SameDocument document document' := by
  have hread : (match parseScript 4 forwardScript with
      | .ok t => t.toDocument.toOption.isSome
      | .error _ => false) = true := by decide +kernel
  cases hparse : parseScript 4 forwardScript with
  | error e => simp [hparse] at hread
  | ok t =>
    simp only [hparse] at hread
    cases hdocument : t.toDocument with
    | error e => simp [hdocument, Except.toOption] at hread
    | ok document =>
      obtain ⟨hiff, hsame⟩ :=
        @toDocument_of_perm 4 forwardScript t ⟨t.statements.reverse⟩ hparse (List.reverse_perm _)
      obtain ⟨document', hdocument'⟩ := hiff.2 ⟨document, hdocument⟩
      exact ⟨t, document, document', rfl, hdocument, hdocument',
        hsame document document' hdocument hdocument'⟩

/-! ### One more declaration -/

/-- A document and the same document with one more entry in a section. The section may be a new one,
and the sections before and after it are the same. -/
inductive AddsEntry (key name : String) (v : Value) : Value → Value → Prop
  | first {before after : List (String × Value)} (hkey : key ∉ (before ++ after).map Prod.fst) :
      AddsEntry key name v (.map (keyed (before ++ after)))
        (.map (keyed (before ++ (key, .map (keyed [(name, v)])) :: after)))
  | next {before after fields : List (String × Value)}
      (hkey : key ∉ (before ++ after).map Prod.fst) (hname : name ∉ fields.map Prod.fst) :
      AddsEntry key name v (.map (keyed (before ++ (key, .map (keyed fields)) :: after)))
        (.map (keyed (before ++ (key, .map (keyed (fields ++ [(name, v)]))) :: after)))

/-- The template with one more statement. -/
def Template.extend (t : Template) (st : Statement) : Template := ⟨t.statements ++ [st]⟩

/-- An assignment declares no other name than its own. -/
theorem Template.agreeOn_extend {t : Template} {name x : String} (hx : x ≠ name) (value : Expr)
    (line : Int) :
    (SymbolTable.ofTemplate (t.extend (.assign name value line))).AgreeOn (.ofTemplate t) x := by
  intro kind
  rw [mem_names_iff, mem_names_iff, Declares, Declares, declarations, declarations, extend,
    List.filterMap_append, List.map_append, List.mem_append]
  refine or_iff_left ?_
  by_cases hkind : value.declKind? = some kind <;> simp [hkind, hx]

section

variable {entries : List Entry} {kind : DeclKind} {name : String} {v : Value}

private theorem declaredFields_append (kind' : DeclKind) :
    declaredFields (entries ++ [.declaration kind name v]) kind' =
      declaredFields entries kind' ++ if kind = kind' then [(name, v)] else [] := by
  rw [declaredFields, List.filterMap_append]
  by_cases h : kind = kind' <;> simp [declaredFields, h]

private theorem documentSection?_append {key : String} (hkey : key ∈ sectionOrder)
    (hne : key ≠ kind.sectionKey) :
    documentSection? (entries ++ [.declaration kind name v]) key =
      documentSection? entries key := by
  obtain ⟨kind', rfl⟩ | ⟨kind', rfl⟩ := Template.sectionOrder_cases hkey
  · rw [Template.documentSection_keyword, Template.documentSection_keyword, headerValue?,
      List.filterMap_append]
    simp [headerValue?]
  · have hkind : kind ≠ kind' := fun h => hne (congrArg _ h.symm)
    rw [Template.documentSection_sectionKey, Template.documentSection_sectionKey, sectionValue?,
      declaredFields_append, if_neg hkind, List.append_nil]
    rfl

/-- One more declaration with a new name adds an entry to its section and leaves the other sections
as they are. -/
theorem addsEntry_documentOfEntries
    (hnodup : ((declaredFields entries kind).map Prod.fst).Nodup)
    (hname : name ∉ (declaredFields entries kind).map Prod.fst) :
    AddsEntry kind.sectionKey name v (documentOfEntries entries)
      (documentOfEntries (entries ++ [.declaration kind name v])) := by
  obtain ⟨before, after, horder⟩ :=
    List.append_of_mem (Template.sectionKey_mem_sectionOrder kind)
  have hdistinct : sectionOrder.Nodup := by decide
  rw [horder, List.nodup_middle, List.nodup_cons, List.mem_append, not_or] at hdistinct
  have hsame (keys : List String) (hkeys : ∀ key ∈ keys, key ∈ sectionOrder)
      (hnot : kind.sectionKey ∉ keys) :
      (keys.filterMap fun key => (documentSection? (entries ++ [.declaration kind name v]) key).map
        (Prod.mk key)) =
      keys.filterMap fun key => (documentSection? entries key).map (Prod.mk key) :=
    List.filterMap_congr fun key hkey => by
      rw [documentSection?_append (hkeys key hkey) (ne_of_mem_of_not_mem hkey hnot)]
  have hbefore := hsame before (by simp +contextual [horder]) hdistinct.1.1
  have hafter := hsame after (by simp +contextual [horder]) hdistinct.1.2
  have hkey : kind.sectionKey ∉
      ((before.filterMap fun key => (documentSection? entries key).map (Prod.mk key)) ++
        after.filterMap fun key => (documentSection? entries key).map (Prod.mk key)).map
          Prod.fst := by
    rw [List.map_append, List.mem_append, not_or]
    exact ⟨fun h => hdistinct.1.1 ((Template.sublist_keys _ before).subset h),
      fun h => hdistinct.1.2 ((Template.sublist_keys _ after).subset h)⟩
  have hfields : declaredFields (entries ++ [.declaration kind name v]) kind =
      declaredFields entries kind ++ [(name, v)] := by
    rw [declaredFields_append, if_pos rfl]
  have hnew : documentSection? (entries ++ [.declaration kind name v]) kind.sectionKey =
      some (.map (keyed (declaredFields entries kind ++ [(name, v)]))) := by
    rw [Template.documentSection_sectionKey, sectionValue?_eq, hfields,
      if_pos (.inr (List.append_ne_nil_of_right_ne_nil _ (by simp)))]
    rw [hfields, List.map_append, List.nodup_append_comm]
    exact List.nodup_cons.2 ⟨hname, hnodup⟩
  rw [Template.documentOfEntries_eq, Template.documentOfEntries_eq, Template.sectionsOf,
    Template.sectionsOf, horder, List.filterMap_append, List.filterMap_append, hbefore,
    List.filterMap_cons, List.filterMap_cons, hafter, hnew, Template.documentSection_sectionKey,
    sectionValue?_eq hnodup]
  by_cases hkind : kind = .resource ∨ declaredFields entries kind ≠ []
  · rw [if_pos hkind]
    exact .next hkey hname
  · rw [if_neg hkind]
    rw [not_or, not_not] at hkind
    rw [hkind.2]
    exact .first hkey

end

/-- **An unrelated declaration changes nothing else.** If a script has a document, and one more
assignment with a name that occurs nowhere in it still leaves a document, then this one has exactly
one more entry, the value of the assignment in the section of its kind. -/
theorem addsEntry_of_fresh {limit : Nat} {text : List Char} {t : Template} {name : String}
    {value : Expr} {line : Int} {document document' : Value}
    (h : parseScript limit text = .ok t) (hdocument : t.toDocument = .ok document)
    (hmentioned : ∀ place x, t.Occurs place (.name x) → x ≠ name)
    (hdeclared : ∀ kind x, t.Declares kind x → x ≠ name)
    (hdocument' : (t.extend (.assign name value line)).toDocument = .ok document') :
    ∃ kind v, value.declKind? = some kind ∧
      value.declarationValue (.ofTemplate (t.extend (.assign name value line))) = .ok v ∧
      AddsEntry kind.sectionKey name v document document' := by
  have hwell := isWellFormed_of_parseScript h
  obtain ⟨entries, hentries, hdocument⟩ := bind_eq_ok_iff.1 hdocument
  cases hdocument
  have hold : t.statements.mapM
      (Statement.toEntry (.ofTemplate (t.extend (.assign name value line)))) = .ok entries := by
    rw [← hentries]
    refine mapM_congr fun st hst => Statement.toEntry_congr ?_
    rintro place place' e' (_ | ⟨hc, hin⟩) x hx
    · refine Template.agreeOn_extend (hmentioned st.root.1 x ⟨st, hst, ?_⟩) value line
      rw [← hx]
      exact .self ..
    · exact Template.agreeOn_extend (hmentioned place' x ⟨st, hst, .inside hc (hx ▸ hin)⟩) value
        line
  obtain ⟨entries', hentries', hdocument'⟩ := bind_eq_ok_iff.1 hdocument'
  cases hdocument'
  rw [Template.extend, List.mapM_append, ← Template.extend, hold, List.mapM_cons,
    List.mapM_nil] at hentries'
  simp only [bind_eq_ok_iff, pure_eq_ok_iff] at hentries'
  obtain ⟨_, hsame, _, ⟨entry, hentry, _, rfl, rfl⟩, rfl⟩ := hentries'
  cases hsame
  obtain ⟨kind, v, hkind, hv, rfl⟩ := Statement.toEntry_assign_eq_ok_iff.1 hentry
  refine ⟨kind, v, hkind, hv, addsEntry_documentOfEntries (hwell.nodup_declaredFields hentries kind)
    fun hmem => ?_⟩
  rw [Value.map_fst_eq_of_forall₂
    ((hwell.forall₂_declaredFields hentries kind).flip.imp fun _ _ h => h.1)] at hmem
  exact hdeclared kind name hmem rfl

/-- A script with an output of a parameter. -/
private def outputScript : List Char := "o=Output{v:[p]}\np=Parameter{}".toList

/-- Whether statements are those of `outputScript`, on whatever lines. -/
private def isOutputScript : List Statement → Bool
  | [.assign "o" (.body .output [("v", .array [.name "p"])]) _,
    .assign "p" (.body .parameter []) _] => true
  | _ => false

/-- A condition with a name that the script does not have adds its entry. -/
theorem addsEntry_outputScript :
    ∃ t document document', parseScript 4 outputScript = .ok t ∧ t.toDocument = .ok document ∧
      (t.extend (.assign "c" (.condition (.name "p")) 0)).toDocument = .ok document' ∧
      ∃ kind v, (Expr.condition (.name "p")).declKind? = some kind ∧
        (Expr.condition (.name "p")).declarationValue
          (.ofTemplate (t.extend (.assign "c" (.condition (.name "p")) 0))) = .ok v ∧
        AddsEntry kind.sectionKey "c" v document document' := by
  have hread : ((parseScript 4 outputScript).toOption.any fun t =>
      t.toDocument.toOption.isSome &&
      (t.extend (.assign "c" (.condition (.name "p")) 0)).toDocument.toOption.isSome &&
      isOutputScript t.statements) = true := by decide +kernel
  cases hparse : parseScript 4 outputScript with
  | error e => simp [hparse, Except.toOption] at hread
  | ok t =>
    simp only [hparse, Except.toOption, Option.any_some, Bool.and_eq_true] at hread
    obtain ⟨⟨hsome, hsome'⟩, hshape⟩ := hread
    unfold isOutputScript at hshape
    split at hshape
    next line line' hstatements =>
      have hmentioned : ∀ st ∈ t.statements, ∀ place place' e', Occurs place st.root.2 place' e' →
          ∀ x, e' = .name x → x ≠ "c" := by
        have hname : ∀ place place' e', Occurs place (.name "p") place' e' →
            ∀ x, e' = .name x → x ≠ "c" := by
          rintro _ _ _ (_ | ⟨⟨⟩, _⟩) x hx
          cases hx
          decide
        have harray : ∀ place place' e', Occurs place (.array [.name "p"]) place' e' →
            ∀ x, e' = .name x → x ≠ "c" := by
          refine forall_occurs_iff.2 ⟨by simp, ?_⟩
          simpa [Expr.children] using hname
        rw [hstatements, List.forall_mem_cons, List.forall_mem_singleton]
        refine ⟨forall_occurs_iff.2 ⟨by simp [Statement.root], ?_⟩,
          forall_occurs_iff.2 ⟨by simp [Statement.root], by simp [Expr.children, Statement.root]⟩⟩
        simpa [Expr.children, Statement.root] using harray
      have hdeclared : ∀ kind x, t.Declares kind x → x ≠ "c" := by
        intro kind x
        rw [Template.Declares, Template.declarations, hstatements]
        cases kind <;> simp +contextual [Expr.declKind?, DeclKind.ofBody]
      cases hdocument : t.toDocument with
      | error e => simp [hdocument] at hsome
      | ok document =>
        cases hdocument' :
            (t.extend (.assign "c" (.condition (.name "p")) 0)).toDocument with
        | error e => simp [hdocument'] at hsome'
        | ok document' =>
          refine ⟨t, document, document', rfl, hdocument, hdocument', addsEntry_of_fresh hparse
            hdocument (fun place x hx => ?_) hdeclared hdocument'⟩
          obtain ⟨st, hst, hin⟩ := hx
          exact hmentioned st hst _ place _ hin x rfl
    · cases hshape

end StackScript
