import StackScript.Compile
import StackScript.Proofs.Outcome

/-!
# Values of compound expressions

An expression that is put together from others has a value exactly when all of them have values.

## Main results

* `Expr.values_eq_ok_iff`, `Expr.fieldValues_eq_ok_iff`: the values of lists and of fields.
* `Expr.toValue_call`, `Expr.toValue_call_head`: the value of a call.
* `Statement.toEntry_header_eq_ok_iff`, `Statement.toEntry_assign_eq_ok_iff`: what statements put
  into a document.
-/

namespace StackScript.Expr

variable {symbols : SymbolTable}

theorem values_eq_ok_iff {es : List Expr} {vs : List Value} :
    values symbols es = .ok vs ↔ List.Forall₂ (fun e v => toValue symbols e = .ok v) es vs := by
  induction es generalizing vs with
  | nil => rw [values, List.forall₂_nil_left_iff, Except.ok.injEq, eq_comm]
  | cons e es ih =>
    simp only [values, bind_eq_ok_iff, pure_eq_ok_iff, ih, List.forall₂_cons_left_iff]
    constructor
    · rintro ⟨v, hv, vs, hvs, rfl⟩
      exact ⟨v, vs, hv, hvs, rfl⟩
    · rintro ⟨v, vs, hv, hvs, rfl⟩
      exact ⟨v, hv, vs, hvs, rfl⟩

theorem fieldValues_eq_ok_iff {fields : List (String × Expr)} {vs : List (String × Value)} :
    fieldValues symbols fields = .ok vs ↔
      List.Forall₂ (fun f v => v.1 = f.1 ∧ toValue symbols f.2 = .ok v.2) fields vs := by
  induction fields generalizing vs with
  | nil => rw [fieldValues, List.forall₂_nil_left_iff, Except.ok.injEq, eq_comm]
  | cons f fields ih =>
    simp only [fieldValues, bind_eq_ok_iff, pure_eq_ok_iff, ih, List.forall₂_cons_left_iff]
    constructor
    · rintro ⟨v, hv, vs, hvs, rfl⟩
      exact ⟨(f.1, v), vs, ⟨rfl, hv⟩, hvs, rfl⟩
    · rintro ⟨⟨key, v⟩, vs, ⟨rfl, hv⟩, hvs, rfl⟩
      exact ⟨v, hv, vs, hvs, rfl⟩

theorem values_eq_mapM (es : List Expr) : values symbols es = es.mapM (toValue symbols) := by
  induction es with
  | nil => rfl
  | cons e es ih => rw [values, List.mapM_cons, ih]

theorem fieldValues_eq_mapM (fields : List (String × Expr)) :
    fieldValues symbols fields = fields.mapM fun f => Prod.mk f.1 <$> toValue symbols f.2 := by
  induction fields with
  | nil => rfl
  | cons f fields ih =>
    rw [fieldValues, List.mapM_cons, ih]
    cases toValue symbols f.2 <;> rfl

theorem modifierValues_eq_mapM (modifiers : List (String × Expr)) :
    modifierValues symbols modifiers =
      modifiers.mapM fun m => Prod.mk m.1 <$> modifierValue symbols m.1 m.2 := by
  induction modifiers with
  | nil => rfl
  | cons m modifiers ih =>
    rw [modifierValues, List.mapM_cons, ih]
    cases modifierValue symbols m.1 m.2 <;> rfl

/-- The value of the first argument of a call: a plain name, or an expression like any other. -/
def firstValue (symbols : SymbolTable) (function : String) (first : Expr) :
    Except MeaningFault Value :=
  match headName? symbols function first with
  | some plain => .str <$> plain
  | none => toValue symbols first

theorem toValue_call_cons {function : String} {first : Expr} {others : List Expr}
    {operator : Option Operator} (href : function ≠ "Ref") :
    toValue symbols (.call function (first :: others) operator) = (do
      let first ← firstValue symbols function first
      return callValue function (first :: (← values symbols others))) := by
  simp only [toValue, href, if_false, firstValue]
  cases headName? symbols function first <;> rfl

/-- The value of a call none of whose arguments is a plain name. -/
theorem toValue_call {function : String} {args : List Expr} {operator : Option Operator}
    (href : function ≠ "Ref") (hhead : ∀ e ∈ args.head?, headName? symbols function e = none) :
    toValue symbols (.call function args operator) =
      callValue function <$> values symbols args := by
  cases args with
  | nil => simp [toValue, values, href, Functor.map, Except.map]
  | cons first others =>
    rw [toValue_call_cons href, firstValue, hhead first rfl, values]
    cases toValue symbols first with
    | error fault => rfl
    | ok v => cases values symbols others <;> rfl

/-- The value of a call whose first argument is a plain name. -/
theorem toValue_call_head {function : String} {first : Expr} {others : List Expr}
    {operator : Option Operator} {plain : Except MeaningFault String} (href : function ≠ "Ref")
    (hhead : headName? symbols function first = some plain) :
    toValue symbols (.call function (first :: others) operator) =
      (do return callValue function (.str (← plain) :: (← values symbols others))) := by
  rw [toValue_call_cons href, firstValue, hhead]
  cases plain <;> rfl

/-- The entry of a resource for its properties, if it has any. -/
def propertiesEntry (symbols : SymbolTable) :
    Option (List (String × Expr)) → Except MeaningFault (List (String × Value))
  | some fields => do return [("Properties", Value.ofFields (← fieldValues symbols fields))]
  | none => .ok []

theorem resourceValue_eq (type : String) (properties : Option (List (String × Expr)))
    (modifiers : List (String × Expr)) :
    resourceValue symbols type properties modifiers = do
      let body ← propertiesEntry symbols properties
      let attributes ← modifierValues symbols modifiers
      return Value.ofFields (("Type", .str type) :: body ++ attributes) := by
  unfold resourceValue
  cases properties with
  | none => rfl
  | some fields => simp only [propertiesEntry, bind_assoc, pure_bind]

end StackScript.Expr

namespace StackScript.Statement

theorem toEntry_header_eq_ok_iff {symbols : SymbolTable} {kind : Header} {value : Expr}
    {entry : Entry} : (Statement.header kind value).toEntry symbols = .ok entry ↔
      ∃ v, value.toValue symbols = .ok v ∧ entry = .header kind v := by
  simp only [Statement.toEntry]
  cases value.toValue symbols <;> simp [eq_comm]

theorem toEntry_assign_eq_ok_iff {symbols : SymbolTable} {name : String} {value : Expr}
    {line : Int} {entry : Entry} : (Statement.assign name value line).toEntry symbols = .ok entry ↔
      ∃ kind v, value.declKind? = some kind ∧ value.declarationValue symbols = .ok v ∧
        entry = .declaration kind name v := by
  simp only [Statement.toEntry]
  cases value.declKind? with
  | none => simp
  | some kind => cases value.declarationValue symbols <;> simp [eq_comm]

/-- A header that has no value fails without a place. -/
theorem exists_of_toEntry_header_eq_error {symbols : SymbolTable} {kind : Header} {value : Expr}
    {e : CompileError} (h : (Statement.header kind value).toEntry symbols = .error e) :
    ∃ fault, e = .meaning ⟨fault, none⟩ := by
  rw [Statement.toEntry] at h
  cases hvalue : value.toValue symbols with
  | ok v => simp [hvalue] at h
  | error fault =>
    rw [hvalue] at h
    exact ⟨fault, (Except.error.inj h).symm⟩

/-- A declaration that has no value fails with the name and the line of its assignment. -/
theorem exists_of_toEntry_assign_eq_error {symbols : SymbolTable} {name : String} {value : Expr}
    {line : Int} {kind : DeclKind} {e : CompileError} (hkind : value.declKind? = some kind)
    (h : (Statement.assign name value line).toEntry symbols = .error e) :
    ∃ fault, e = .meaning ⟨fault, some (name, line)⟩ := by
  simp only [Statement.toEntry, hkind] at h
  cases hvalue : value.declarationValue symbols with
  | ok v => simp [hvalue] at h
  | error fault =>
    rw [hvalue] at h
    exact ⟨fault, (Except.error.inj h).symm⟩

end StackScript.Statement
