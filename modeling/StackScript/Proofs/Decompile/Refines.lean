import StackScript.Proofs.Document.Normal

/-!
# Reading values in list form

A value and its list form are read as the same expression. This is a comparison of two runs: each
step of the first that succeeds is matched by a step of the second with the same result. Only the
depth counts for what a step gives, not the warnings so far.

## Main definitions

* `Decompile.Refines`: a step gives whatever another one gives.

## Main results

* `Decompile.refines_valueAt`, `Decompile.refines_value`: the list form of a tree is read as
  whatever the tree is read as.
-/

namespace StackScript.Decompile

open Text

variable {α β : Type}

/-! ### Steps side by side -/

/-- A step gives whatever another one gives: where the first one succeeds, so does the second one
from every state of the same depth, with the same result. -/
def Refines (m m' : Decompile α) : Prop :=
  ∀ (s s' : DecompileState) (a : α) (u : DecompileState), s'.depth = s.depth →
    m.run.run s = (.ok a, u) → ∃ u', m'.run.run s' = (.ok a, u') ∧ u'.depth = u.depth

theorem refines_pure (a : α) : Refines (pure a) (pure a) := by
  rintro s s' _ _ hdepth ⟨⟩
  exact ⟨s', rfl, hdepth⟩

theorem refines_throw {e : DecompileError} {m : Decompile α} : Refines (throw e) m := by
  rintro s s' a u - ⟨⟩

theorem refines_reject {fault : DecodeFault} {m : Decompile α} : Refines (reject fault) m :=
  refines_throw

theorem refines_written (text? : Option String) : Refines (written text?) (written text?) := by
  cases text? with
  | none => exact refines_throw
  | some text => exact refines_pure text

theorem Refines.bind {m m' : Decompile α} {f f' : α → Decompile β} (h : Refines m m')
    (hf : ∀ a, Refines (f a) (f' a)) : Refines (m >>= f) (m' >>= f') := by
  intro s s' b u hdepth hrun
  obtain ⟨a, t, hm, hfa⟩ := exists_of_run_bind hrun
  obtain ⟨t', hm', hdepth'⟩ := h s s' a t hdepth hm
  obtain ⟨u', hfa', hu⟩ := hf a t t' b u hdepth' hfa
  exact ⟨u', (run_bind_ok hm').trans hfa', hu⟩

theorem Refines.mapM {γ : Type} {f : α → Decompile γ} {f' : β → Decompile γ} {l : List α}
    {l' : List β} (h : List.Forall₂ (fun a b => Refines (f a) (f' b)) l l') :
    Refines (l.mapM f) (l'.mapM f') := by
  induction h with
  | nil => exact refines_pure []
  | cons hab _ ih =>
    rw [List.mapM_cons, List.mapM_cons]
    exact hab.bind fun c => ih.bind fun cs => refines_pure (c :: cs)

theorem Refines.within {m m' : Decompile α} (h : Refines m m') :
    Refines (within m) (within m') := by
  intro s s' a u hdepth hrun
  rw [run_within] at hrun
  obtain ⟨hm, rfl⟩ := Prod.mk.inj hrun
  obtain ⟨u', hm', hu⟩ := h _ { s' with depth := s'.depth + 1 } a _ (congrArg (· + 1) hdepth)
    (Prod.ext hm rfl)
  refine ⟨{ u' with depth := u'.depth - 1 }, ?_, congrArg (· - 1) hu⟩
  rw [run_within, hm']

/-! ### List forms -/

theorem exists_listForm_map_eq (entries : List (Value × Value)) :
    ∃ entries', (Value.map entries).listForm = .map entries' := by
  rw [Value.listForm]
  cases h : Value.attributeList? entries with
  | none => exact ⟨_, rfl⟩
  | some v =>
    unfold Value.attributeList? at h
    split at h
    · split_ifs at h
      obtain ⟨parts, -, rfl⟩ := Option.map_eq_some_iff.1 h
      exact ⟨_, rfl⟩
    · cases h

theorem unfold_listForm {v : Value} (h : v.isTree = true) : v.listForm.unfold = v.listForm := by
  cases v with
  | map entries =>
    obtain ⟨entries', hform⟩ := exists_listForm_map_eq entries
    rw [hform]
    rfl
  | list items =>
    rw [Value.listForm_list]
    rfl
  | scalar s =>
    rw [Value.listForm_scalar]
    rfl
  | _ => simp [Value.isTree] at h

theorem allStrings?_map_listForm (vs : List Value) :
    allStrings? (vs.map Value.listForm) = allStrings? vs := by
  induction vs with
  | nil => rfl
  | cons v vs ih =>
    by_cases hv : ∃ s, v = .str s
    · obtain ⟨s, rfl⟩ := hv
      rw [List.map_cons, Value.listForm_scalar, allStrings?, allStrings?, ih]
    · have hform : ∀ s, v.listForm ≠ .str s := fun s hs => hv ⟨s, Value.eq_str_of_listForm hs⟩
      have hnone {w : Value} {ws : List Value} (h : ∀ s, w ≠ .str s) :
          allStrings? (w :: ws) = none := by
        unfold allStrings?
        split
        · simp_all
        next hs => exact absurd (List.cons.inj hs).1 (h _)
        · rfl
      rw [List.map_cons, hnone hform, hnone fun s hs => hv ⟨s, hs⟩]

/-- An access does not depend on whether its parts are in list form. -/
theorem accessExpr?_listForm (symbols : SymbolTable) (base : Value) (attributes : List Value) :
    accessExpr? symbols base.listForm (attributes.map Value.listForm) =
      accessExpr? symbols base attributes := by
  by_cases hbase : ∃ s, base = .str s
  · obtain ⟨s, rfl⟩ := hbase
    rw [Value.listForm_scalar]
    unfold accessExpr?
    rw [allStrings?_map_listForm]
  · have hnone {v : Value} {vs : List Value} (h : ∀ s, v ≠ .str s) :
        accessExpr? symbols v vs = none := by
      unfold accessExpr?
      split
      next hs _ => exact absurd rfl (h _)
      · rfl
    rw [hnone fun s hs => hbase ⟨s, hs⟩,
      hnone fun s hs => hbase ⟨s, Value.eq_str_of_listForm hs⟩]

/-! ### Values -/

section Values

variable {symbols : SymbolTable} {inner : Value → Decompile Expr}

/-- Values inside are read like their list forms. -/
abbrev RefinesInner (inner : Value → Decompile Expr) : Prop :=
  ∀ v, v.isTree = true → Refines (inner v) (inner v.listForm)

private theorem refines_items (hinner : RefinesInner inner) {vs : List Value}
    (hvs : ∀ v ∈ vs, v.isTree = true) :
    Refines (vs.mapM inner) ((vs.map Value.listForm).mapM inner) := by
  refine .mapM ?_
  rw [List.forall₂_map_right_iff]
  exact List.forall₂_same.2 fun v hv => hinner v (hvs v hv)

theorem refines_fields (hinner : RefinesInner inner) {written : List (String × Value)}
    (hwritten : ∀ w ∈ written, w.2.isTree = true) :
    Refines (fields inner (Value.keyed written))
      (fields inner (Value.keyed (Value.fieldListForms written))) := by
  refine .mapM ?_
  rw [Value.keyed, Value.keyed, Value.fieldListForms, List.forall₂_map_left_iff,
    List.forall₂_map_right_iff, List.forall₂_map_right_iff]
  refine List.forall₂_same.2 fun w hw => ?_
  exact (refines_written _).bind fun key => (hinner w.2 (hwritten w hw)).bind fun e =>
    refines_pure (key, e)

private theorem leadingName_cons {declared : List String} {first : Value} {others : List Value}
    (h : ∀ s, first ≠ .str s) : leadingName declared inner (first :: others) =
      inner first >>= fun head => others.mapM inner >>= fun es => pure (head :: es) := by
  simp only [leadingName]

private theorem refines_leadingName (hinner : RefinesInner inner) (declared : List String)
    {args : List Value} (hargs : ∀ v ∈ args, v.isTree = true) :
    Refines (leadingName declared inner args)
      (leadingName declared inner (args.map Value.listForm)) := by
  cases args with
  | nil => exact refines_pure []
  | cons first others =>
    rw [List.forall_mem_cons] at hargs
    have hothers := refines_items hinner hargs.2
    have hfirst := hinner first hargs.1
    by_cases hname : ∃ s, first = .str s
    · obtain ⟨s, rfl⟩ := hname
      rw [Value.listForm_scalar] at hfirst
      rw [List.map_cons, Value.listForm_scalar]
      simp only [leadingName]
      split_ifs with hdeclared
      · exact (refines_pure _).bind fun head => hothers.bind fun es => refines_pure (head :: es)
      · exact hfirst.bind fun head => hothers.bind fun es => refines_pure (head :: es)
    · rw [List.map_cons, leadingName_cons fun s hs => hname ⟨s, hs⟩,
        leadingName_cons fun s hs => hname ⟨s, Value.eq_str_of_listForm hs⟩]
      exact hfirst.bind fun head => hothers.bind fun es => refines_pure (head :: es)

private theorem exists_of_map_eq_cons_cons {f : Value → Value} {l more : List Value} {x y : Value}
    (h : l.map f = x :: y :: more) : ∃ a b rest, l = a :: b :: rest ∧ rest.map f = more := by
  obtain ⟨a, l, rfl, -, h⟩ := List.map_eq_cons_iff.1 h
  obtain ⟨b, l, rfl, -, h⟩ := List.map_eq_cons_iff.1 h
  exact ⟨a, b, l, rfl, h⟩

private theorem refines_listCall (hinner : RefinesInner inner) (function : String)
    {args : List Value} (hargs : ∀ v ∈ args, v.isTree = true) :
    Refines (listCall symbols inner function args)
      (listCall symbols inner function (args.map Value.listForm)) := by
  have hitems := refines_items hinner hargs
  conv => lhs; unfold listCall
  split
  next => exact hitems.bind fun es => refines_pure _
  next => exact hitems.bind fun es => refines_pure _
  next => exact hitems.bind fun es => refines_pure _
  next arg => exact (hinner arg (hargs arg (by simp))).bind fun e => refines_pure _
  next => exact (refines_leadingName hinner _ hargs).bind fun es => refines_pure _
  next hfind hequals hand hor hnot =>
    -- There are as many arguments as before, so this is no operator either.
    unfold listCall
    split
    next heq =>
      obtain ⟨a, b, rest, rfl, hrest⟩ := exists_of_map_eq_cons_cons heq
      exact (hequals a b rfl (by rw [List.map_eq_nil_iff.1 hrest])).elim
    next heq =>
      obtain ⟨a, b, rest, rfl, -⟩ := exists_of_map_eq_cons_cons heq
      exact (hand a b rest rfl rfl).elim
    next heq =>
      obtain ⟨a, b, rest, rfl, -⟩ := exists_of_map_eq_cons_cons heq
      exact (hor a b rest rfl rfl).elim
    next heq =>
      obtain ⟨a, rfl, -⟩ := List.map_eq_singleton_iff.1 heq
      exact (hnot a rfl rfl).elim
    next => exact (hfind rfl).elim
    next => exact hitems.bind fun es => refines_pure _

private theorem plainCall_of_ne {function : String} {arg : Value}
    (h : ∀ first second more, arg.unfold ≠ .list (first :: second :: more)) :
    plainCall symbols inner function arg =
      inner arg >>= fun e => pure (.call function [e] none) := by
  unfold plainCall
  split
  next hv => exact absurd hv (h _ _ _)
  · rfl

private theorem refines_plainCall (hinner : RefinesInner inner) (function : String) {arg : Value}
    (harg : arg.isTree = true) :
    Refines (plainCall symbols inner function arg)
      (plainCall symbols inner function arg.listForm) := by
  by_cases hlist : ∃ first second more, arg = .list (first :: second :: more)
  · obtain ⟨first, second, more, rfl⟩ := hlist
    have hargs := Value.isTree_list_iff.1 harg
    rw [Value.listForm_list]
    simp only [plainCall, Value.unfold, List.map_cons]
    split_ifs
    · exact (refines_leadingName hinner _ hargs).bind fun es => refines_pure _
    · exact (refines_items hinner hargs).bind fun es => refines_pure _
  · rw [plainCall_of_ne, plainCall_of_ne]
    · exact (hinner arg harg).bind fun e => refines_pure _
    · intro first second more hform
      rw [unfold_listForm harg] at hform
      cases arg with
      | list items =>
        rw [Value.listForm_list, Value.list.injEq] at hform
        obtain ⟨a, b, rest, rfl, -⟩ := exists_of_map_eq_cons_cons hform
        exact hlist ⟨a, b, rest, rfl⟩
      | map entries =>
        obtain ⟨entries', heq⟩ := exists_listForm_map_eq entries
        rw [heq] at hform
        cases hform
      | scalar s => simp at hform
      | _ => simp [Value.isTree] at harg
    · intro first second more hform
      rw [Value.unfold_eq_self harg] at hform
      exact hlist ⟨_, _, _, hform⟩

/-- The parts of an attribute that is written in one string. -/
theorem attributeTextParts_eq (text : String) :
    attributeTextParts text = match Value.attributeParts? text with
      | some parts => pure parts
      | none => reject (.attributeText text) := by
  unfold attributeTextParts Value.attributeParts?
  split <;> simp_all

/-- The access of an attribute, once its parts are known. -/
def accessOf (symbols : SymbolTable) (inner : Value → Decompile Expr) (arg : Value)
    (parts : List Value) : Decompile Expr :=
  match parts with
  | base :: first :: more =>
    match accessExpr? symbols base (first :: more) with
    | some access => return access
    | none => return .call "GetAtt" (← parts.mapM inner) none
  | _ => do reject (.attributeParts (← written arg.display?))

private theorem refines_accessOf (hinner : RefinesInner inner) (arg arg' : Value)
    {parts : List Value} (hparts : ∀ v ∈ parts, v.isTree = true) :
    Refines (accessOf symbols inner arg parts)
      (accessOf symbols inner arg' (parts.map Value.listForm)) := by
  have hitems := refines_items hinner hparts
  have hfew {m : Decompile Expr} : Refines
      (written arg.display? >>= fun display => reject (.attributeParts display)) m := by
    intro s s' e u _ hrun
    obtain ⟨display, t, -, hreject⟩ := exists_of_run_bind hrun
    cases hreject
  match parts with
  | [] => exact hfew
  | [_] => exact hfew
  | base :: first :: more =>
    simp only [accessOf, List.map_cons]
    rw [← List.map_cons, accessExpr?_listForm]
    cases accessExpr? symbols base (first :: more) with
    | some access => exact refines_pure access
    | none => exact hitems.bind fun es => refines_pure _

theorem attributeAccess_str {arg : Value} {text : String} (h : arg.unfold = .str text) :
    attributeAccess symbols inner arg = attributeTextParts text >>= accessOf symbols inner arg := by
  unfold attributeAccess
  rw [h]
  rfl

theorem attributeAccess_list {arg : Value} {parts : List Value} (h : arg.unfold = .list parts) :
    attributeAccess symbols inner arg = accessOf symbols inner arg parts := by
  unfold attributeAccess
  rw [h]
  rfl

/-- Parts that were divided at a dot are in list form. -/
private theorem map_listForm_attributeParts? {text : String} {parts : List Value}
    (h : Value.attributeParts? text = some parts) : parts.map Value.listForm = parts := by
  unfold Value.attributeParts? at h
  split at h <;> cases h
  simp

private theorem refines_attributeAccess (hinner : RefinesInner inner) {arg : Value}
    (harg : arg.isTree = true) (hform : Value.attributeList? [(.str "Fn::GetAtt", arg)] = none) :
    Refines (attributeAccess symbols inner arg) (attributeAccess symbols inner arg.listForm) := by
  cases arg with
  | list parts =>
    rw [Value.listForm_list, attributeAccess_list rfl, attributeAccess_list rfl]
    exact refines_accessOf hinner _ _ (Value.isTree_list_iff.1 harg)
  | scalar value =>
    cases value with
    | str text =>
      simp only [Value.attributeList?, if_true, Option.map_eq_none_iff] at hform
      rw [attributeAccess_str rfl, attributeTextParts_eq, hform]
      exact refines_throw
    | _ => exact refines_reject
  | map entries => exact refines_reject
  | _ => simp [Value.isTree] at harg

private theorem refines_functionCall (hinner : RefinesInner inner) {key function : String}
    (hkey : key = "Fn::" ++ function) {arg : Value} (harg : arg.isTree = true)
    (hform : Value.attributeList? [(.str key, arg)] = none) :
    Refines (functionCall symbols inner key function arg)
      (functionCall symbols inner key function arg.listForm) := by
  unfold functionCall
  split_ifs with hget hlist
  · subst hget hkey
    exact refines_attributeAccess hinner harg hform
  · rw [unfold_listForm harg, Value.unfold_eq_self harg]
    cases arg with
    | list args =>
      rw [Value.listForm_list]
      exact refines_listCall hinner function (Value.isTree_list_iff.1 harg)
    | _ => exact refines_reject
  · exact refines_plainCall hinner function harg

/-- A mapping that is no reference is a call of the function that its key names. -/
private theorem intrinsic?_eq_functionCall {key : String} {arg : Value}
    (h : ∀ x, arg = .str x → key ≠ "Ref" ∧ key ≠ "Condition") :
    intrinsic? symbols inner (.str key) arg =
      (functionName? key).map fun function => functionCall symbols inner key function arg := by
  unfold intrinsic?
  split
  next hkey =>
    cases hkey
    exact absurd rfl (h _ rfl).1
  next hkey =>
    cases hkey
    exact absurd rfl (h _ rfl).2
  next hkey _ _ =>
    cases hkey
    rfl
  next hkey _ _ => exact absurd rfl (hkey _)

private theorem refines_intrinsic? (hinner : RefinesInner inner) {key : String} {arg : Value}
    (harg : arg.isTree = true) (hform : Value.attributeList? [(.str key, arg)] = none) :
    Option.Rel Refines (intrinsic? symbols inner (.str key) arg)
      (intrinsic? symbols inner (.str key) arg.listForm) := by
  by_cases hreference : (∃ x, arg = .str x) ∧ (key = "Ref" ∨ key = "Condition")
  · obtain ⟨⟨x, rfl⟩, rfl | rfl⟩ := hreference
    · exact .some (refines_pure _)
    · exact .some (refines_pure _)
  · have hplain (x : String) (hx : arg = .str x) : key ≠ "Ref" ∧ key ≠ "Condition" :=
      ⟨fun h => hreference ⟨⟨x, hx⟩, .inl h⟩, fun h => hreference ⟨⟨x, hx⟩, .inr h⟩⟩
    rw [intrinsic?_eq_functionCall hplain,
      intrinsic?_eq_functionCall fun x hx => hplain x (Value.eq_str_of_listForm hx)]
    cases hf : functionName? key with
    | none => exact .none
    | some function =>
      exact .some (refines_functionCall hinner (functionName?_eq_some hf).1 harg hform)

private theorem valueWith_single {key arg : Value} : valueWith symbols inner (.map [(key, arg)]) =
    (intrinsic? symbols inner key arg).getD
      (fields inner [(key, arg)] >>= fun fs => pure (.object fs)) := by
  simp only [valueWith, Value.unfold]
  cases intrinsic? symbols inner key arg <;> rfl

private theorem valueWith_object {entries : List (Value × Value)}
    (h : ∀ entry, entries ≠ [entry]) : valueWith symbols inner (.map entries) =
      fields inner entries >>= fun fs => pure (.object fs) := by
  simp only [valueWith, Value.unfold]
  split
  · exact absurd rfl (h _)
  · rfl

private theorem refines_fields_object (hinner : RefinesInner inner)
    {written : List (String × Value)} (hwritten : ∀ w ∈ written, w.2.isTree = true) :
    Refines (fields inner (Value.keyed written) >>= fun fs => pure (Expr.object fs))
      (fields inner (Value.keyed (Value.fieldListForms written)) >>= fun fs =>
        pure (Expr.object fs)) :=
  (refines_fields hinner hwritten).bind fun fs => refines_pure (Expr.object fs)

/-- A mapping whose list form is another one accesses an attribute by one string. -/
private theorem refines_attribute {entries : List (Value × Value)} {form : Value}
    (hform : Value.attributeList? entries = some form) (hinner : RefinesInner inner) :
    Refines (valueWith symbols inner (.map entries)) (valueWith symbols inner form) := by
  unfold Value.attributeList? at hform
  split at hform
  next key text =>
    split_ifs at hform with hkey
    subst hkey
    obtain ⟨parts, hparts, rfl⟩ := Option.map_eq_some_iff.1 hform
    have hstep (arg : Value) : intrinsic? symbols inner (.str "Fn::GetAtt") arg =
        some (attributeAccess symbols inner arg) := by
      have hname : functionName? "Fn::GetAtt" = some "GetAtt" := by decide
      rw [intrinsic?_eq_functionCall fun _ _ => by decide, hname]
      rfl
    rw [valueWith_single, hstep, Value.single, valueWith_single, hstep, Option.getD_some,
      Option.getD_some, attributeAccess_str rfl, attributeTextParts_eq, hparts,
      attributeAccess_list rfl]
    have htrees : ∀ v ∈ parts, v.isTree = true := by
      unfold Value.attributeParts? at hparts
      split at hparts <;> cases hparts
      simp
    have haccess : Refines (accessOf symbols inner (.str text) parts)
        (accessOf symbols inner (.list parts) (parts.map Value.listForm)) :=
      refines_accessOf hinner _ _ htrees
    rwa [map_listForm_attributeParts? hparts] at haccess
  · cases hform

private theorem refines_valueWith (hinner : RefinesInner inner) {v : Value} (hv : v.isTree = true) :
    Refines (valueWith symbols inner v) (valueWith symbols inner v.listForm) := by
  cases v with
  | scalar value =>
    rw [Value.listForm_scalar]
    cases value with
    | float x =>
      simp only [valueWith, Value.unfold, scalar]
      split_ifs
      · exact refines_pure _
      · exact refines_reject
    | _ => exact refines_pure _
  | list items =>
    rw [Value.listForm_list]
    exact (refines_items hinner (Value.isTree_list_iff.1 hv)).bind fun es => refines_pure _
  | map entries =>
    obtain ⟨written, rfl, -, htrees⟩ := Value.isTree_map_iff.1 hv
    cases hform : Value.attributeList? (Value.keyed written) with
    | some form =>
      rw [Value.listForm, hform, Option.getD_some]
      exact refines_attribute hform hinner
    | none =>
      rw [Value.listForm_keyed hform]
      have hobject := refines_fields_object hinner htrees
      rcases written with _ | ⟨⟨key, arg⟩, _ | ⟨second, more⟩⟩
      · exact hobject
      · have hrel : Option.Rel Refines (intrinsic? symbols inner (.str key) arg)
            (intrinsic? symbols inner (.str key) arg.listForm) :=
          refines_intrinsic? hinner (htrees (key, arg) (by simp)) hform
        simp only [Value.keyed, Value.fieldListForms, List.map_cons, List.map_nil] at hobject ⊢
        rw [valueWith_single, valueWith_single]
        generalize intrinsic? symbols inner (.str key) arg = step at hrel ⊢
        generalize intrinsic? symbols inner (.str key) arg.listForm = step' at hrel ⊢
        cases hrel with
        | none => exact hobject
        | some hstep => exact hstep
      · rw [valueWith_object (by simp), valueWith_object (by simp [Value.fieldListForms])]
        exact hobject
  | _ => simp [Value.isTree] at hv

end Values

/-- The list form of a tree is read as whatever the tree is read as, with as many levels. -/
theorem refines_valueAt (limit : Nat) (symbols : SymbolTable) (levels : Nat) {v : Value}
    (hv : v.isTree = true) :
    Refines (valueAt limit symbols levels v) (valueAt limit symbols levels v.listForm) := by
  induction levels generalizing v with
  | zero =>
    intro s s' e u _ hrun
    exact absurd ⟨s, u, hrun⟩ not_gives_tooDeep
  | succ levels ih => exact (refines_valueWith (fun w hw => @ih w hw) hv).within

/-- The list form of a tree is read as whatever the tree is read as at the same depth. -/
theorem refines_value (limit : Nat) (symbols : SymbolTable) {v : Value} (hv : v.isTree = true) :
    Refines (value limit symbols v) (value limit symbols v.listForm) := by
  intro s s' e u hdepth hrun
  have hrun' (t : DecompileState) (w : Value) : (value limit symbols w).run.run t =
      (valueAt limit symbols (limit - t.depth) w).run.run t := rfl
  rw [hrun'] at hrun ⊢
  rw [hdepth]
  exact refines_valueAt limit symbols _ hv s s' e u hdepth hrun

end StackScript.Decompile
