import StackScript.Proofs.Compile.Values
import StackScript.Proofs.Decompile.Reading
import StackScript.Proofs.Document.Tree
import StackScript.Proofs.Text.Split
import StackScript.Decompile.Template

/-!
# Expressions denote the values they were read from

A value is read as an expression, and that expression denotes the value again, with attribute
accesses in list form. There is one exception. The first argument of `If` and of `FindInMap` is a
place for plain names: a bare name there is a string and not a reference. A reference in this place
that is read as a bare name therefore does not come back.

## Main definitions

* `Value.readsAsName`: whether a value is a reference that is read as a bare name.
* `Value.misreads`: whether such a reference stands in a place for plain names.

## Main results

* `Decompile.toValue_eq_listForm_iff`: an expression denotes the list form of the value it was read
  from exactly when the value holds no misread reference.
-/

namespace StackScript

open Text

/-! ### References in places for plain names -/

namespace Value

/-- Whether a value is a reference that is read as a bare name. -/
def readsAsName (symbols : SymbolTable) : Value → Bool
  | .map [(.str key, .str x)] =>
    if key = "Ref" then
      Expr.isPseudo x && isIdentifier (Expr.pseudoTail x).toList ||
        symbols.isReferenceable x && !symbols.isConditionReference x && isBareName x
    else if key = "Condition" then symbols.isConditionReference x && isBareName x
    else false
  | _ => false

/-- The argument of a call that stands in a place for plain names. -/
def plainPlace? : List (Value × Value) → Option Value
  | [(.str key, .list args)] =>
    if key = "Fn::FindInMap" ∨ key = "Fn::If" ∧ 2 ≤ args.length then args.head? else none
  | [(.str key, arg)] => if key = "Fn::If" then some arg else none
  | _ => none

mutual

/-- Whether a reference that is read as a bare name stands in a place for plain names. -/
def misreads (symbols : SymbolTable) : Value → Bool
  | .list items => anyMisreads symbols items
  | .map entries =>
    (plainPlace? entries).any (readsAsName symbols) || anyEntryMisreads symbols entries
  | _ => false

/-- Whether `misreads` holds of an item. -/
def anyMisreads (symbols : SymbolTable) : List Value → Bool
  | [] => false
  | item :: rest => misreads symbols item || anyMisreads symbols rest

/-- Whether `misreads` holds of the value of an entry. -/
def anyEntryMisreads (symbols : SymbolTable) : List (Value × Value) → Bool
  | [] => false
  | (_, value) :: rest => misreads symbols value || anyEntryMisreads symbols rest

end

variable {symbols : SymbolTable}

@[simp] theorem misreads_scalar (s : Scalar) : misreads symbols (.scalar s) = false := by
  simp [misreads]

@[simp] theorem misreads_list {items : List Value} :
    misreads symbols (.list items) = false ↔ ∀ item ∈ items, misreads symbols item = false := by
  rw [misreads]
  induction items with
  | nil => simp [anyMisreads]
  | cons item items ih => simp [anyMisreads, ih]

theorem misreads_keyed {fields : List (String × Value)} :
    misreads symbols (.map (keyed fields)) = false ↔
      (plainPlace? (keyed fields)).any (readsAsName symbols) = false ∧
        ∀ field ∈ fields, misreads symbols field.2 = false := by
  have hentries (fields : List (String × Value)) :
      anyEntryMisreads symbols (keyed fields) = false ↔
        ∀ field ∈ fields, misreads symbols field.2 = false := by
    induction fields with
    | nil => simp [anyEntryMisreads]
    | cons field fields ih => simp [anyEntryMisreads, ih]
  rw [misreads, Bool.or_eq_false_iff, hentries]

end Value

/-! ### Names -/

theorem isIdentifierPart_of_isIdentifier {cs : List Char} (h : isIdentifier cs = true) :
    ∀ c ∈ cs, isIdentifierPart c = true := by
  cases cs with
  | nil => simp
  | cons c rest =>
    simp only [isIdentifier, Bool.and_eq_true, List.all_eq_true] at h
    intro d hd
    rcases List.mem_cons.1 hd with rfl | hd
    · simp [isIdentifierPart, h.1]
    · exact h.2 d hd

theorem isPseudo_eq_false_of_isIdentifier {x : String} (h : isIdentifier x.toList = true) :
    Expr.isPseudo x = false := by
  rw [Bool.eq_false_iff]
  intro hx
  have hmem : ':' ∈ x.toList :=
    (List.isPrefixOf_iff_prefix.1 hx).subset (by decide : ':' ∈ Expr.pseudoStart)
  exact absurd (isIdentifierPart_of_isIdentifier h _ hmem) (by decide)

theorem isIdentifier_of_isBareName {x : String} (h : isBareName x = true) :
    isIdentifier x.toList = true := by
  rw [isBareName, Bool.and_eq_true] at h
  exact h.1

namespace Decompile

/-- A key that names a function is that name after the start of all such keys. -/
theorem functionName?_eq_some {key function : String} (h : functionName? key = some function) :
    key = "Fn::" ++ function ∧ isBareName function = true ∧ function ≠ "Ref" := by
  simp only [functionName?] at h
  split_ifs at h with hkey hname
  cases h
  rw [Bool.and_eq_true, bne_iff_ne] at hname
  refine ⟨?_, hname⟩
  obtain ⟨rest, hrest⟩ := List.isPrefixOf_iff_prefix.1 hkey
  rw [← String.toList_inj, String.toList_append, ← hrest, List.drop_left]
  exact congrArg (functionStart ++ ·) String.toList_ofList.symm

variable {symbols : SymbolTable}

/-! ### References -/

theorem toValue_reference (x : String) :
    (reference symbols x).toValue symbols = .ok (.single "Ref" (.str x)) := by
  unfold reference
  split_ifs with hpseudo hname
  · rw [Bool.and_eq_true] at hpseudo
    simp [Expr.toValue, Expr.nameValue, hpseudo.1]
  · simp only [Bool.and_eq_true, Bool.not_eq_true'] at hname
    simp [Expr.toValue, Expr.nameValue, hname.1.1, hname.1.2]
  · simp [Expr.toValue, Expr.refValue]

theorem toValue_conditionReference (x : String) :
    (conditionReference symbols x).toValue symbols = .ok (.single "Condition" (.str x)) := by
  unfold conditionReference
  split_ifs with hname
  · rw [Bool.and_eq_true] at hname
    have hpseudo := isPseudo_eq_false_of_isIdentifier (isIdentifier_of_isBareName hname.2)
    simp [Expr.toValue, Expr.nameValue, hpseudo, hname.1]
  · simp [Expr.toValue, Expr.fieldValues, bind, Except.bind, pure, Except.pure, Value.ofFields,
      Value.ofEntries, Value.put, Value.single]

theorem reference_eq_name_iff {x : String} :
    (∃ y, reference symbols x = .name y) ↔
      Value.readsAsName symbols (.single "Ref" (.str x)) = true := by
  unfold reference
  simp only [Value.single, Value.readsAsName]
  split_ifs <;> simp_all

theorem conditionReference_eq_name_iff {x : String} :
    (∃ y, conditionReference symbols x = .name y) ↔
      Value.readsAsName symbols (.single "Condition" (.str x)) = true := by
  unfold conditionReference
  simp only [Value.single, Value.readsAsName]
  split_ifs <;> simp_all

/-! ### Attribute accesses -/

/-- An access in whichever form denotes the list of its parts. -/
theorem toValue_access {base : Value} {attributes : List Value} {e : Expr}
    (h : accessExpr? symbols base attributes = some e) :
    (∀ v ∈ base :: attributes, ∃ x, v = .str x) ∧
      e.toValue symbols = .ok (.single "Fn::GetAtt" (.list (base :: attributes))) := by
  obtain ⟨resource, names, rfl, rfl, hres, -, he⟩ := accessExpr?_eq_some h
  refine ⟨by simp, ?_⟩
  have hbase : Expr.attributeBase symbols (.name resource) = .ok resource := by
    simp only [Expr.attributeBase, hres, if_true]
  rcases he with ⟨path, rfl, -, rfl⟩ | rfl
  · have hpath : ".".intercalate ((splitAtChar '.' path.toList).map String.ofList) = path := by
      rw [← String.toList_inj, String.toList_intercalate, List.map_map]
      simpa using intercalate_splitAtChar '.' path.toList
    simp only [Expr.toValue, hbase, hpath]
    rfl
  · simp only [Expr.toValue, hbase]
    rfl

/-! ### Calls -/

private theorem callValue_eq_list {function : String} {args : List Value}
    (h : listFunctions.contains function = true ∨ args.length ≠ 1) :
    callValue function args = .single ("Fn::" ++ function) (.list args) := by
  unfold callValue
  split
  next hf =>
    rcases h with h | h
    · exact absurd (h.symm.trans hf) (by simp)
    · simp at h
  · rfl

private theorem toValue_call_eq_ok_iff {function : String} {es : List Expr} {vs : List Value}
    {operator : Option Operator} (href : function ≠ "Ref")
    (hhead : ∀ e ∈ es.head?, Expr.headName? symbols function e = none)
    (hl : listFunctions.contains function = true ∨ es.length ≠ 1) :
    (Expr.call function es operator).toValue symbols =
        .ok (.single ("Fn::" ++ function) (.list vs)) ↔
      Expr.values symbols es = .ok vs := by
  rw [Expr.toValue_call href hhead, map_eq_ok_iff]
  constructor
  · rintro ⟨args, hargs, h⟩
    have hlength := (Expr.values_eq_ok_iff.1 hargs).length_eq
    rw [callValue_eq_list (hl.imp_right fun h => hlength ▸ h)] at h
    simp only [Value.single, Value.map.injEq, List.cons.injEq, Prod.mk.injEq, Value.list.injEq,
      true_and, and_true] at h
    rw [hargs, h]
  · intro h
    have hlength := (Expr.values_eq_ok_iff.1 h).length_eq
    exact ⟨vs, h, callValue_eq_list (hl.imp_right fun h => hlength ▸ h)⟩

private theorem headName?_eq_none {function : String} (e : Expr)
    (h : function ≠ "If" ∧ function ≠ "FindInMap") :
    Expr.headName? symbols function e = none := by
  unfold Expr.headName?
  split
  · rw [if_neg h.1, if_neg h.2]
  · rfl

/-! ### Values -/

/-- An expression denotes the list form of a value exactly if the value is not misread. -/
private def Faithful (symbols : SymbolTable) (v : Value) (e : Expr) : Prop :=
  e.toValue symbols = .ok v.listForm ↔ v.misreads symbols = false

private theorem values_faithful {vs : List Value} {es : List Expr}
    (h : List.Forall₂ (Faithful symbols) vs es) :
    Expr.values symbols es = .ok (vs.map Value.listForm) ↔
      ∀ v ∈ vs, v.misreads symbols = false := by
  rw [Expr.values_eq_ok_iff]
  induction h with
  | nil => simp
  | cons hv _ ih =>
    rw [List.map_cons, List.forall₂_cons, List.forall_mem_cons]
    exact and_congr hv ih

private theorem fieldValues_faithful {fields : List (String × Value)} {fs : List (String × Expr)}
    (h : List.Forall₂ (fun field f => field.1 = f.1 ∧ Faithful symbols field.2 f.2) fields fs) :
    Expr.fieldValues symbols fs = .ok (Value.fieldListForms fields) ↔
      ∀ field ∈ fields, field.2.misreads symbols = false := by
  rw [Expr.fieldValues_eq_ok_iff, Value.fieldListForms]
  induction h with
  | nil => simp
  | cons hf _ ih =>
    rw [List.map_cons, List.forall₂_cons, List.forall_mem_cons]
    exact and_congr ((and_iff_right hf.1).trans hf.2) ih

private theorem calling_ne_name {inner : Value → Expr → Prop} {function x : String} {arg : Value} :
    ¬ Calling symbols inner function arg (.name x) := by
  intro h
  generalize he : Expr.name x = e at h
  cases h with
  | access hp ha =>
    obtain ⟨_, _, -, -, -, -, ⟨_, _, _, rfl⟩ | rfl⟩ := accessExpr?_eq_some ha <;> cases he
  | @negation arg item e hv hi =>
    unfold negation at he
    split at he <;> cases he
  | _ => cases he

/-- References are all that is read as bare names. -/
theorem readsAsName_iff {inner : Value → Expr → Prop} {v : Value} {e : Expr}
    (hv : v.isTree = true) (h : Reading symbols inner v e) :
    v.readsAsName symbols = true ↔ ∃ x, e = .name x := by
  have hself := Value.unfold_eq_self hv
  cases h with
  | scalar hs =>
    rw [← hself, hs]
    simp [Value.readsAsName]
  | list hs =>
    rw [← hself, hs]
    simp [Value.readsAsName]
  | object hs hn =>
    rw [← hself, hs]
    refine iff_of_false (fun h => ?_) (by simp)
    unfold Value.readsAsName at h
    split at h
    next key x hentries =>
      cases hentries
      have := (hn key _ rfl).2 x rfl
      simp [this] at h
    · cases h
  | reference hs =>
    rw [← hself, hs]
    exact reference_eq_name_iff.symm
  | conditionReference hs =>
    rw [← hself, hs]
    exact conditionReference_eq_name_iff.symm
  | function hs hf hc =>
    rw [← hself, hs]
    refine iff_of_false (fun h => ?_) (by rintro ⟨x, rfl⟩; exact calling_ne_name hc)
    unfold Value.readsAsName at h
    split at h
    next key x hentries =>
      cases hentries
      split_ifs at h with hkey hkey <;> (subst hkey; cases hf)
    · cases h

/-- The declared names that a function takes as plain names. -/
private theorem headName?_name {function x : String} {declared : List String}
    (hf : function = "If" ∧ declared = symbols.conditions ∨
      function = "FindInMap" ∧ declared = symbols.mappings) :
    ∃ plain, Expr.headName? symbols function (.name x) = some plain ∧
      (declared.contains x = true → plain = .ok x) ∧ ∀ y, plain = .ok y → y = x := by
  rcases hf with ⟨rfl, rfl⟩ | ⟨rfl, rfl⟩
  · refine ⟨_, rfl, fun h => if_pos h, fun y hy => ?_⟩
    split_ifs at hy
    exact (Except.ok.inj hy).symm
  · refine ⟨_, rfl, fun h => if_pos h, fun y hy => ?_⟩
    split_ifs at hy
    exact (Except.ok.inj hy).symm

private theorem Leading.length_eq {declared : List String} {inner : Value → Expr → Prop}
    {args : List Value} {es : List Expr} (h : Leading declared inner args es) :
    args.length = es.length := by
  cases h with
  | nil => rfl
  | name hd hb ho => simp [ho.length_eq]
  | value hf ho => simp [ho.length_eq]

private theorem faithful_of_forall₂ {inner : Value → Expr → Prop} {vs : List Value}
    {es : List Expr} (h : List.Forall₂ inner vs es) (htrees : ∀ v ∈ vs, v.isTree = true)
    (hinner : ∀ v e, inner v e → v.isTree = true → Faithful symbols v e) :
    List.Forall₂ (Faithful symbols) vs es := by
  have hall := (List.forall₂_and_left vs es).2 ⟨htrees, h⟩
  exact hall.imp fun v e hv => hinner v e hv.2 hv.1

private theorem toValue_call_name_eq_ok_iff {function x : String} {es : List Expr}
    {vs : List Value} {plain : Except MeaningFault String} (href : function ≠ "Ref")
    (hplain : Expr.headName? symbols function (.name x) = some plain)
    (hl : listFunctions.contains function = true ∨ (Expr.name x :: es).length ≠ 1) :
    (Expr.call function (.name x :: es) none).toValue symbols =
        .ok (.single ("Fn::" ++ function) (.list vs)) ↔
      ∃ y vs', plain = .ok y ∧ Expr.values symbols es = .ok vs' ∧ vs = .str y :: vs' := by
  rw [Expr.toValue_call_head href hplain]
  simp only [bind_eq_ok_iff, pure_eq_ok_iff]
  constructor
  · rintro ⟨y, hy, vs', hvs, h⟩
    have hlength := (Expr.values_eq_ok_iff.1 hvs).length_eq
    rw [callValue_eq_list (hl.imp_right fun h => by simpa [hlength] using h)] at h
    simp only [Value.single, Value.map.injEq, List.cons.injEq, Prod.mk.injEq, Value.list.injEq,
      true_and, and_true] at h
    exact ⟨y, vs', hy, hvs, h⟩
  · rintro ⟨y, vs', hy, hvs, rfl⟩
    have hlength := (Expr.values_eq_ok_iff.1 hvs).length_eq
    exact ⟨y, hy, vs', hvs,
      (callValue_eq_list (hl.imp_right fun h => by simpa [hlength] using h)).symm⟩

/-- A call whose first argument may be a plain name denotes the list form of its arguments exactly
if none of them is misread and the first one is not read as a bare name. -/
private theorem leading_faithful {function : String} {declared : List String} {args : List Value}
    {es : List Expr} {inner : Value → Expr → Prop} (href : function ≠ "Ref")
    (hf : function = "If" ∧ declared = symbols.conditions ∨
      function = "FindInMap" ∧ declared = symbols.mappings)
    (hl : listFunctions.contains function = true ∨ args.length ≠ 1)
    (hi : Leading declared inner args es) (htrees : ∀ v ∈ args, v.isTree = true)
    (hname : ∀ v e, inner v e → v.isTree = true →
      (v.readsAsName symbols = true ↔ ∃ x, e = .name x))
    (hinner : ∀ v e, inner v e → v.isTree = true → Faithful symbols v e) :
    (Expr.call function es none).toValue symbols =
        .ok (.single ("Fn::" ++ function) (.list (args.map Value.listForm))) ↔
      args.head?.any (Value.readsAsName symbols) = false ∧
        ∀ v ∈ args, v.misreads symbols = false := by
  rw [hi.length_eq] at hl
  cases hi with
  | nil => exact (toValue_call_eq_ok_iff href (by simp) hl).trans (by simp [Expr.values])
  | @name x others es hd hb ho =>
    obtain ⟨plain, hplain, hok, -⟩ := headName?_name (x := x) hf
    obtain rfl := hok hd
    rw [List.forall_mem_cons] at htrees
    have ho := values_faithful (faithful_of_forall₂ ho htrees.2 hinner)
    rw [toValue_call_name_eq_ok_iff href hplain hl, List.forall_mem_cons, ← ho]
    simp [Value.readsAsName]
  | @value first e others es hfirst ho =>
    have hall := values_faithful (faithful_of_forall₂ (.cons hfirst ho) htrees hinner)
    rw [List.forall_mem_cons] at htrees
    have hreads := hname first e hfirst htrees.1
    rw [← hall]
    by_cases he : ∃ x, e = .name x
    · rw [List.head?_cons, Option.any_some, hreads.2 he]
      refine iff_of_false (fun h => ?_) (by simp)
      obtain ⟨x, rfl⟩ := he
      obtain ⟨plain, hplain, -⟩ := headName?_name (x := x) hf
      obtain ⟨y, vs, -, -, hvs⟩ := (toValue_call_name_eq_ok_iff href hplain hl).1 h
      have hentries : ∃ entries, first = .map entries := by
        have := hreads.2 ⟨x, rfl⟩
        unfold Value.readsAsName at this
        split at this
        · exact ⟨_, rfl⟩
        · cases this
      obtain ⟨entries, rfl⟩ := hentries
      exact Value.listForm_map_ne_str entries y (List.cons.inj hvs).1
    · rw [List.head?_cons, Option.any_some, Bool.eq_false_iff.2 (mt hreads.1 he),
        toValue_call_eq_ok_iff href ?_ hl]
      · simp
      · intro e' he'
        cases he'
        unfold Expr.headName?
        split
        · exact absurd ⟨_, rfl⟩ he
        · rfl

private theorem functionKey_eq_iff {function other : String} :
    "Fn::" ++ function = "Fn::" ++ other ↔ function = other := by
  rw [← String.toList_inj, ← String.toList_inj, String.toList_append, String.toList_append,
    List.append_cancel_left_eq]

private theorem plainPlace?_list {function : String} {args : List Value} :
    Value.plainPlace? [(.str ("Fn::" ++ function), .list args)] =
      if function = "FindInMap" ∨ function = "If" ∧ 2 ≤ args.length then args.head? else none := by
  have hfind := @functionKey_eq_iff function "FindInMap"
  have hif := @functionKey_eq_iff function "If"
  simp only [Value.plainPlace?, ← hfind, ← hif]
  rfl

private theorem isTree_single_iff {key : String} {arg : Value} :
    (Value.map [(.str key, arg)]).isTree = true ↔ arg.isTree = true := by
  have := @Value.isTree_keyed_iff [(key, arg)]
  simpa using this

private theorem misreads_single_iff {key : String} {arg : Value} :
    (Value.map [(.str key, arg)]).misreads symbols = false ↔
      (Value.plainPlace? [(.str key, arg)]).any (Value.readsAsName symbols) = false ∧
        arg.misreads symbols = false := by
  have := @Value.misreads_keyed symbols [(key, arg)]
  simpa using this

private theorem listForm_single {key : String} {arg : Value}
    (h : Value.attributeList? [(.str key, arg)] = none) :
    (Value.map [(.str key, arg)]).listForm = .single key arg.listForm :=
  @Value.listForm_keyed [(key, arg)] h

private theorem attributeList?_eq_none {function : String} {arg : Value}
    (h : function ≠ "GetAtt" ∨ ∃ args, arg = .list args) :
    Value.attributeList? [(.str ("Fn::" ++ function), arg)] = none := by
  unfold Value.attributeList?
  split
  next hkey =>
    cases hkey
    rcases h with h | ⟨args, h⟩
    · exact if_neg fun hkey => h (functionKey_eq_iff.1 hkey)
    · cases h
  · rfl

/-- A call with a list of arguments that no plain name leads. -/
private theorem call_faithful {function : String} {args : List Value} {es : List Expr}
    {operator : Option Operator} (href : function ≠ "Ref")
    (hh : function ≠ "If" ∧ function ≠ "FindInMap")
    (hl : listFunctions.contains function = true ∨ args.length ≠ 1)
    (hi : List.Forall₂ (Faithful symbols) args es) :
    Faithful symbols (.map [(.str ("Fn::" ++ function), .list args)])
      (.call function es operator) := by
  rw [Faithful, listForm_single (attributeList?_eq_none (.inr ⟨args, rfl⟩)), Value.listForm_list,
    toValue_call_eq_ok_iff href (fun e _ => headName?_eq_none e hh) (hi.length_eq ▸ hl),
    values_faithful hi, misreads_single_iff, plainPlace?_list, Value.misreads_list]
  simp [hh]

private theorem attributeParts_faithful {arg : Value} {parts : List Value} (hv : arg.isTree = true)
    (h : AttributeParts arg parts) :
    (Value.map [(.str "Fn::GetAtt", arg)]).listForm =
        .single "Fn::GetAtt" (.list (parts.map Value.listForm)) ∧
      (arg.misreads symbols = false ↔ ∀ v ∈ parts, v.misreads symbols = false) ∧
      ∀ v ∈ parts, v.isTree = true := by
  have hself := Value.unfold_eq_self hv
  cases h with
  | text ht hs =>
    obtain rfl := hself.symm.trans ht
    simp [Value.listForm, Value.attributeList?, Value.attributeParts?, hs]
  | list hs =>
    obtain rfl := hself.symm.trans hs
    have hlist := listForm_single (@attributeList?_eq_none "GetAtt" _ (.inr ⟨parts, rfl⟩))
    rw [Value.listForm_list] at hlist
    exact ⟨hlist, Value.misreads_list, Value.isTree_list_iff.1 hv⟩

private theorem plainPlace?_attribute (arg : Value) :
    Value.plainPlace? [(.str "Fn::GetAtt", arg)] = none := by
  cases arg <;> rfl

private theorem listForm_eq_self_of_str {vs : List Value} (h : ∀ v ∈ vs, ∃ x, v = .str x) :
    vs.map Value.listForm = vs ∧ ∀ v ∈ vs, v.misreads symbols = false := by
  constructor
  · refine (List.map_congr_left fun v hv => ?_).trans (List.map_id vs)
    obtain ⟨x, rfl⟩ := h v hv
    simp
  · intro v hv
    obtain ⟨x, rfl⟩ := h v hv
    simp

private theorem negation_faithful {v : Value} {e : Expr} (h : Faithful symbols v e)
    (heq : ∀ function args, e = .call function args (some .eq) → function = "Equals") :
    Faithful symbols (.map [(.str "Fn::Not", .list [v])]) (negation e) := by
  have hnot (e' : Expr) (operator : Option Operator) (h : Faithful symbols v e') :
      Faithful symbols (.map [(.str "Fn::Not", .list [v])]) (.call "Not" [e'] operator) :=
    call_faithful (by decide) (by decide) (.inl (by decide)) (.cons h .nil)
  unfold negation
  split
  next function args =>
    obtain rfl := heq _ _ rfl
    refine hnot _ _ (Iff.trans (Eq.congr_left ?_) h)
    cases args <;> simp only [Expr.toValue]
  · exact hnot _ _ h

private theorem function_of_equality {inner : Value → Expr → Prop} {v : Value} {function : String}
    {args : List Expr} (h : Reading symbols inner v (.call function args (some .eq))) :
    function = "Equals" := by
  generalize he : Expr.call function args (some .eq) = e at h
  cases h with
  | reference hv =>
    unfold reference at he
    split_ifs at he
    cases he
  | conditionReference hv =>
    unfold conditionReference at he
    split_ifs at he
  | function hv hf hc =>
    cases hc with
    | equals => cases he; rfl
    | access hp ha =>
      obtain ⟨_, _, -, -, -, -, ⟨_, _, _, rfl⟩ | rfl⟩ := accessExpr?_eq_some ha <;> cases he
    | @negation arg item e hv hi =>
      unfold negation at he
      split at he <;> cases he
    | _ => cases he
  | _ => cases he

/-- A call with one argument that stands without a list. -/
private theorem one_faithful {function : String} {arg : Value} {e : Expr}
    (href : function ≠ "Ref") (hf : listFunctions.contains function = false)
    (hl : ∀ args, arg = .list args → args.length < 2) (hg : function ≠ "GetAtt")
    (hname : arg.readsAsName symbols = true ↔ ∃ x, e = .name x) (hi : Faithful symbols arg e) :
    Faithful symbols (.map [(.str ("Fn::" ++ function), arg)]) (.call function [e] none) := by
  have hone (v : Value) : callValue function [v] = .single ("Fn::" ++ function) v := by
    simp only [callValue, hf]
  have hfind : function ≠ "FindInMap" := by
    rintro rfl
    exact absurd hf (by decide)
  rw [Faithful, listForm_single (attributeList?_eq_none (.inl hg)), misreads_single_iff]
  rw [Faithful] at hi
  rw [← hi]
  by_cases hhead : function = "If" ∧ ∃ x, e = .name x
  · obtain ⟨rfl, x, rfl⟩ := hhead
    have hreads := hname.2 ⟨x, rfl⟩
    obtain ⟨entries, rfl⟩ : ∃ entries, arg = .map entries := by
      unfold Value.readsAsName at hreads
      split at hreads
      · exact ⟨_, rfl⟩
      · cases hreads
    refine iff_of_false (fun h => ?_) (fun h => ?_)
    · obtain ⟨plain, hplain, -⟩ := headName?_name (x := x) (.inl ⟨rfl, rfl⟩)
      rw [Expr.toValue_call_head href hplain] at h
      simp only [Expr.values, bind_eq_ok_iff, pure_eq_ok_iff] at h
      obtain ⟨y, -, _, ⟨⟩, h⟩ := h
      rw [hone] at h
      simp only [Value.single, Value.map.injEq, List.cons.injEq, Prod.mk.injEq, true_and,
        and_true] at h
      exact Value.listForm_map_ne_str entries y h
    · have hplace : Value.plainPlace? [(.str ("Fn::" ++ "If"), .map entries)] =
        some (.map entries) := rfl
      rw [hplace, Option.any_some, hreads] at h
      exact Bool.true_eq_false.mp h.1
  · have hnone : Expr.headName? symbols function e = none := by
      unfold Expr.headName?
      split
      · exact (if_neg fun h => hhead ⟨h, _, rfl⟩).trans (if_neg hfind)
      · rfl
    have hplace : (Value.plainPlace? [(.str ("Fn::" ++ function), arg)]).any
        (Value.readsAsName symbols) = false := by
      cases arg with
      | list args =>
        have hlt := hl args rfl
        rw [plainPlace?_list, if_neg (by rintro (h | h); exacts [hfind h, by omega])]
        rfl
      | _ =>
        simp only [Value.plainPlace?]
        split_ifs with hif
        · rw [Option.any_some, Bool.eq_false_iff]
          exact fun h => hhead ⟨functionKey_eq_iff.1 hif, hname.1 h⟩
        · rfl
    rw [Expr.toValue_call href (by simpa using hnone), map_eq_ok_iff, and_iff_right hplace]
    simp only [Expr.values, bind_eq_ok_iff, pure_eq_ok_iff]
    constructor
    · rintro ⟨_, ⟨v, hv, _, ⟨⟩, rfl⟩, h⟩
      rw [hone] at h
      simp only [Value.single, Value.map.injEq, List.cons.injEq, Prod.mk.injEq, true_and,
        and_true] at h
      rw [hv, h]
    · exact fun h => ⟨_, ⟨_, h, _, rfl, rfl⟩, hone _⟩

/-- What a function is called with comes back if what stands inside does. -/
private theorem calling_faithful {inner : Value → Expr → Prop} {function : String} {arg : Value}
    {e : Expr} (href : function ≠ "Ref") (hv : arg.isTree = true)
    (h : Calling symbols inner function arg e)
    (hname : ∀ v e, inner v e → v.isTree = true →
      (v.readsAsName symbols = true ↔ ∃ x, e = .name x))
    (hequality : ∀ v function args, inner v (.call function args (some .eq)) →
      function = "Equals")
    (hinner : ∀ v e, inner v e → v.isTree = true → Faithful symbols v e) :
    Faithful symbols (.map [(.str ("Fn::" ++ function), arg)]) e := by
  have hself := Value.unfold_eq_self hv
  have hattribute : "Fn::" ++ "GetAtt" = "Fn::GetAtt" := rfl
  have items_of {args : List Value} (ha : arg.unfold = .list args) :
      arg = .list args ∧ ∀ v ∈ args, v.isTree = true := by
    obtain rfl := hself.symm.trans ha
    exact ⟨rfl, Value.isTree_list_iff.1 hv⟩
  cases h with
  | access hp ha =>
    obtain ⟨hform, hmis, -⟩ := attributeParts_faithful hv hp
    obtain ⟨hstr, hvalue⟩ := toValue_access ha
    obtain ⟨hsame, hnone⟩ := listForm_eq_self_of_str hstr
    rw [Faithful, hattribute, hvalue, misreads_single_iff, plainPlace?_attribute]
    exact iff_of_true (by rw [hform, hsame]) ⟨rfl, hmis.2 hnone⟩
  | attributeCall hp hi =>
    obtain ⟨hform, hmis, htrees⟩ := attributeParts_faithful hv hp
    have hi := faithful_of_forall₂ hi htrees hinner
    rw [Faithful, hattribute, hform, misreads_single_iff, plainPlace?_attribute, hmis,
      ← values_faithful hi]
    refine (toValue_call_eq_ok_iff href (fun e _ => headName?_eq_none e (by decide))
      (.inr ?_)).trans (by simp)
    rw [← hi.length_eq]
    simp
  | equals ha hl hi =>
    obtain ⟨rfl, htrees⟩ := items_of ha
    exact call_faithful href (by decide) (.inl (by decide)) (faithful_of_forall₂ hi htrees hinner)
  | conjunction ha hl hi =>
    obtain ⟨rfl, htrees⟩ := items_of ha
    exact call_faithful href (by decide) (.inl (by decide)) (faithful_of_forall₂ hi htrees hinner)
  | disjunction ha hl hi =>
    obtain ⟨rfl, htrees⟩ := items_of ha
    exact call_faithful href (by decide) (.inl (by decide)) (faithful_of_forall₂ hi htrees hinner)
  | negation ha hi =>
    obtain ⟨rfl, htrees⟩ := items_of ha
    refine negation_faithful (hinner _ _ hi (htrees _ (by simp))) fun f args he => ?_
    exact hequality _ f args (he ▸ hi)
  | lookup ha hi =>
    obtain ⟨rfl, htrees⟩ := items_of ha
    rw [Faithful, listForm_single (attributeList?_eq_none (.inr ⟨_, rfl⟩)), Value.listForm_list,
      leading_faithful href (.inr ⟨rfl, rfl⟩) (.inl (by decide)) hi htrees hname hinner,
      misreads_single_iff, plainPlace?_list, Value.misreads_list, if_pos (.inl rfl)]
  | choice ha hl hi =>
    obtain ⟨rfl, htrees⟩ := items_of ha
    rw [Faithful, listForm_single (attributeList?_eq_none (.inr ⟨_, rfl⟩)), Value.listForm_list,
      leading_faithful href (.inl ⟨rfl, rfl⟩) (.inr (by omega)) hi htrees hname hinner,
      misreads_single_iff, plainPlace?_list, Value.misreads_list, if_pos (.inr ⟨rfl, hl⟩)]
  | spread ha hl hh hg hi =>
    obtain ⟨rfl, htrees⟩ := items_of ha
    exact call_faithful href hh (hl.imp_right fun h => by omega)
      (faithful_of_forall₂ hi htrees hinner)
  | one hf hl hg hi =>
    rw [hself] at hl
    exact one_faithful href hf hl hg (hname _ _ hi hv) (hinner _ _ hi hv)

/-- What the fields of a mapping with string keys are read as. -/
theorem forall₂_of_keyed {R : Value → Expr → Prop} {written : List (String × Value)}
    {fields : List (String × Expr)}
    (h : List.Forall₂ (fun entry field => entry.1.text? = some field.1 ∧ R entry.2 field.2)
      (Value.keyed written) fields) :
    List.Forall₂ (fun w field => w.1 = field.1 ∧ R w.2 field.2) written fields := by
  rw [Value.keyed, List.forall₂_map_left_iff] at h
  exact h.imp fun _ _ hf => ⟨Option.some.inj hf.1, hf.2⟩

private theorem object_faithful {inner : Value → Expr → Prop} {entries : List (Value × Value)}
    {fields : List (String × Expr)} (hv : (Value.map entries).isTree = true)
    (hn : IsPlain entries)
    (hi : List.Forall₂ (fun entry field => entry.1.text? = some field.1 ∧ inner entry.2 field.2)
      entries fields)
    (hinner : ∀ v e, inner v e → v.isTree = true → Faithful symbols v e) :
    Faithful symbols (.map entries) (.object fields) := by
  obtain ⟨written, rfl, hnodup, htrees⟩ := Value.isTree_map_iff.1 hv
  have hkey {key : String} {arg : Value} (h : Value.keyed written = [(.str key, arg)]) :
      key ≠ "Fn::GetAtt" ∧ key ≠ "Fn::FindInMap" ∧ key ≠ "Fn::If" := by
    have hnone := (hn key arg h).1
    refine ⟨?_, ?_, ?_⟩ <;> (rintro rfl; exact absurd hnone (by decide))
  have hform : Value.attributeList? (Value.keyed written) = none := by
    unfold Value.attributeList?
    split
    next h => exact if_neg (hkey h).1
    · rfl
  have hplace : Value.plainPlace? (Value.keyed written) = none := by
    unfold Value.plainPlace?
    split
    next h => exact if_neg fun hk => hk.elim (hkey h).2.1 fun hk => (hkey h).2.2 hk.1
    next h => exact if_neg (hkey h).2.2
    · rfl
  have hfields : List.Forall₂ (fun field f => field.1 = f.1 ∧ Faithful symbols field.2 f.2)
      written fields := by
    have hall := (List.forall₂_and_left written fields).2 ⟨htrees, forall₂_of_keyed hi⟩
    exact hall.imp fun w f hf => ⟨hf.2.1, hinner w.2 f.2 hf.2.2 hf.1⟩
  have hnodup' : ((Value.fieldListForms written).map Prod.fst).Nodup := by
    rwa [Value.fieldListForms, List.map_map]
  rw [Faithful, Value.listForm_keyed hform, Value.misreads_keyed, hplace,
    ← fieldValues_faithful hfields]
  simp only [Expr.toValue, bind_eq_ok_iff, pure_eq_ok_iff, Option.any_none, true_and]
  constructor
  · rintro ⟨vs, hvs, h⟩
    have hkeys : (vs.map Prod.fst).Nodup := by
      have hwritten := Value.map_fst_eq_of_forall₂ (hfields.imp fun _ _ h => h.1)
      have hvalues := Value.map_fst_eq_of_forall₂
        ((Expr.fieldValues_eq_ok_iff.1 hvs).imp fun _ _ h => h.1.symm)
      rwa [← hvalues, ← hwritten]
    rw [Value.ofFields_eq_map hkeys, Value.map.injEq] at h
    rw [hvs, Value.keyed_injective h]
  · exact fun h => ⟨_, h, (Value.ofFields_eq_map hnodup').symm⟩

/-- An expression denotes the list form of the tree it was read from exactly if the tree is not
misread. -/
theorem toValue_of_readsAs {levels : Nat} {v : Value} {e : Expr} (hv : v.isTree = true)
    (h : ReadsAs symbols levels v e) :
    e.toValue symbols = .ok v.listForm ↔ v.misreads symbols = false := by
  induction levels generalizing v e with
  | zero => exact h.elim
  | succ levels ih =>
    have hself := Value.unfold_eq_self hv
    cases h with
    | scalar hs hfinite =>
      rw [← hself, hs]
      simp [Expr.toValue]
    | list hs hi =>
      obtain rfl := hself.symm.trans hs
      have hitems := values_faithful
        (faithful_of_forall₂ hi (Value.isTree_list_iff.1 hv) fun _ _ h hv => ih hv h)
      rw [Value.listForm_list, Value.misreads_list, ← hitems]
      simp only [Expr.toValue, bind_eq_ok_iff, pure_eq_ok_iff, Value.list.injEq]
      constructor
      · rintro ⟨vs, hvs, rfl⟩
        exact hvs
      · exact fun h => ⟨_, h, rfl⟩
    | object hs hn hi =>
      obtain rfl := hself.symm.trans hs
      exact object_faithful hv hn hi fun _ _ h hv => ih hv h
    | reference hs =>
      obtain rfl := hself.symm.trans hs
      rw [toValue_reference]
      refine iff_of_true rfl rfl
    | conditionReference hs =>
      obtain rfl := hself.symm.trans hs
      rw [toValue_conditionReference]
      refine iff_of_true rfl rfl
    | function hs hf hc =>
      obtain rfl := hself.symm.trans hs
      obtain ⟨rfl, -, href⟩ := functionName?_eq_some hf
      refine calling_faithful href (isTree_single_iff.1 hv) hc (fun v e h hv => ?_)
        (fun v f args h => ?_) fun _ _ h hv => ih hv h
      · cases levels with
        | zero => exact h.elim
        | succ levels => exact readsAsName_iff hv h
      · cases levels with
        | zero => exact h.elim
        | succ levels => exact function_of_equality h

/-- **Reading a value and compiling what it is read as gives the value back**, with its attribute
accesses in list form, exactly when no reference that is read as a bare name stands where a plain
name is expected. -/
theorem toValue_eq_listForm_iff {limit : Nat} {v : Value} {e : Expr} {state after : DecompileState}
    (hv : v.isTree = true) (h : (value limit symbols v).run.run state = (.ok e, after)) :
    e.toValue symbols = .ok v.listForm ↔ v.misreads symbols = false := by
  obtain ⟨levels, -, h⟩ := exists_readsAs_of_gives ⟨state, after, h⟩
  exact toValue_of_readsAs hv h

/-- A choice by a declared condition, with an attribute of a declared resource in one string. -/
private def sampleChoice : Value :=
  .single "Fn::If" (.list [.str "Large", .single "Fn::GetAtt" (.str "Disk.Size"), .null])

/-- The names that the choice refers to. -/
private def sampleSymbols : SymbolTable := { conditions := ["Large"], resources := ["Disk"] }

/-- A choice by the name of a condition comes back, with the attribute in list form. -/
theorem toValue_choice_by_name :
    (Expr.call "If" [.name "Large", .member (.name "Disk") ["Size"], .literal .null] none).toValue
        sampleSymbols = .ok sampleChoice.listForm ∧
      sampleChoice.listForm = .single "Fn::If" (.list
        [.str "Large", .single "Fn::GetAtt" (.list [.str "Disk", .str "Size"]), .null]) :=
  ⟨(@toValue_eq_listForm_iff _ 3 _ _ {} {} (by decide) rfl).2 rfl, rfl⟩

/-- The same choice by a reference to the condition. -/
private def sampleMisreading : Value :=
  .single "Fn::If" (.list [.single "Condition" (.str "Large"), .int 1, .int 2])

/-- A document with the condition that the choice refers to. -/
private def sampleDocument : Value :=
  .single "Conditions" (.single "Large" (.bool true))

/-- A choice by a reference to a condition comes back as a choice by its name. -/
theorem toValue_choice_by_reference_ne :
    ∃ scope e after, Scope.ofDocument 3 sampleDocument = .ok scope ∧
      (value scope.limit scope.symbols sampleMisreading).run.run {} = (.ok e, after) ∧
      e.toValue scope.symbols = .ok (.single "Fn::If" (.list [.str "Large", .int 1, .int 2])) ∧
      e.toValue scope.symbols ≠ .ok sampleMisreading.listForm := by
  refine ⟨_, _, _, rfl, rfl, rfl, fun h => ?_⟩
  have hsame : Value.single "Fn::If" (.list [.str "Large", .int 1, .int 2]) = sampleMisreading :=
    Except.ok.inj h
  simp [sampleMisreading, Value.single] at hsame

end Decompile

end StackScript
