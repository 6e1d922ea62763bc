import Mathlib.Data.Option.Basic
import StackScript.Decompile.Template

/-!
# Walking through a document

Facts about the reading of documents that relate a step to another one, and carry over from steps to
what is put together from them. Such a relation holds of the reading of a value if it holds of the
values inside, so it carries over from the levels that are left to values of all levels, and to
whole documents. A fact about single steps is the case in which the second step does not matter.
Only resources and the keys of a document give warnings, so a relation that says nothing of warnings
still carries over to all other parts. What is known of a document may be known of the values in it
as well, and then a relation may depend on it.

## Main definitions

* `Value.Inherits`: what is known of the values inside a value as well.
* `Decompile.Congruence`: a relation of steps that carries over to what gives no warnings.
* `Decompile.WarningCongruence`: a relation of steps that warnings are in.

## Main results

* `Decompile.Congruence.rel_valueAt`: values, with more levels left for the second reading.
* `Decompile.WarningCongruence.rel_template`: documents, under two limits.
-/

namespace StackScript

/-- Whether a document is refused because it nests too deep. -/
def DecompileError.isTooDeep : DecompileError → Bool
  | .decode (.nestingTooDeep _) => true
  | _ => false

/-- What is known of a value is known of the values inside it. -/
structure Value.Inherits (known : Value → Prop) : Prop where
  unfold : ∀ {v : Value}, known v → known v.unfold
  items : ∀ {items : List Value}, known (.list items) → ∀ item ∈ items, known item
  entries : ∀ {entries : List (Value × Value)}, known (.map entries) →
    ∀ entry ∈ entries, known entry.1 ∧ known entry.2
  str : ∀ s : String, known (.str s)

theorem Value.inherits_true : Inherits fun _ => True where
  unfold _ := trivial
  items _ _ _ := trivial
  entries _ _ _ := ⟨trivial, trivial⟩
  str _ := trivial

theorem Value.Inherits.lookup {known : Value → Prop} (hk : Inherits known)
    {entries : List (Value × Value)} (h : known (.map entries)) {key : String} {v : Value}
    (hv : lookup key entries = some v) : known v := by
  replace h := fun entry hentry => (hk.entries h entry hentry).2
  induction entries with
  | nil => cases hv
  | cons entry entries ih =>
    rw [List.forall_mem_cons] at h
    unfold Value.lookup at hv
    split at hv
    · split at hv
      · cases hv
        exact h.1
      · exact ih hv h.2
    · exact ih hv h.2

namespace Decompile

/-- A relation of steps that carries over to what is put together from them. Steps see no more of
the state than the level, and one that is a level too deep is related to every other. -/
structure Congruence where
  rel : ∀ {α : Type}, Decompile α → Decompile α → Prop
  /-- What is known of the values that are read, if anything. -/
  known : Value → Prop := fun _ => True
  inherits : Value.Inherits known := by exact Value.inherits_true
  pure : ∀ {α : Type} (a : α), rel (pure a : Decompile α) (Pure.pure a)
  bind : ∀ {α β : Type} {step step' : Decompile α} {f f' : α → Decompile β}, rel step step' →
    (∀ a, rel (f a) (f' a)) → rel (step >>= f) (step' >>= f')
  atDepth : ∀ {α : Type} {f f' : Nat → Decompile α}, (∀ depth, rel (f depth) (f' depth)) →
    rel (do f (← get).depth) (do f' (← get).depth)
  throw : ∀ {α : Type} {e : DecompileError}, e.isTooDeep = false →
    ((∃ fault, e = .decode fault) ∨ ∃ v, known v ∧ v.isWritable = false) →
      rel (throw e : Decompile α) (throwThe DecompileError e)
  within : ∀ {α : Type} {step step' : Decompile α}, rel step step' →
    rel (within step) (Decompile.within step')
  tooDeep : ∀ {α : Type} (limit : Nat) (step : Decompile α), rel (tooDeep limit) step

/-- A relation that also carries over to steps with warnings. -/
structure WarningCongruence extends Congruence where
  warn : ∀ warning, rel (warn warning) (Decompile.warn warning)

namespace Congruence

variable (c : Congruence) {α β : Type}

theorem ite {p : Prop} [Decidable p] {step step' other other' : Decompile α}
    (h : c.rel step step') (h' : c.rel other other') :
    c.rel (if p then step else other) (if p then step' else other') := by
  split
  · exact h
  · exact h'

theorem mapM {f f' : α → Decompile β} {as : List α} (hf : ∀ a ∈ as, c.rel (f a) (f' a)) :
    c.rel (as.mapM f) (as.mapM f') := by
  induction as with
  | nil => exact c.pure _
  | cons a as ih =>
    rw [List.forall_mem_cons] at hf
    rw [List.mapM_cons, List.mapM_cons]
    exact c.bind hf.1 fun b => c.bind (ih hf.2) fun bs => c.pure _

theorem reject {fault : DecodeFault} (h : (DecompileError.decode fault).isTooDeep = false) :
    c.rel (reject fault : Decompile α) (Decompile.reject fault) :=
  c.throw h (.inl ⟨fault, rfl⟩)

theorem written {v : Value} (hv : c.known v) {text : String} :
    c.rel (written (if v.isWritable then some text else none))
      (Decompile.written (if v.isWritable then some text else none)) := by
  split
  · exact c.pure text
  next h => exact c.throw rfl (.inr ⟨v, hv, Bool.eq_false_iff.2 h⟩)

/-! ### Intrinsic functions -/

theorem rel_scalar (s : Scalar) : c.rel (scalar s) (scalar s) := by
  cases s with
  | float x => exact c.ite (c.pure _) (c.reject rfl)
  | _ => exact c.pure _

section Values

variable {symbols : SymbolTable} {inner inner' : Value → Decompile Expr}
  (hinner : ∀ v, c.known v → c.rel (inner v) (inner' v)) {arg : Value} {args : List Value}
include hinner

theorem rel_items (hargs : ∀ v ∈ args, c.known v) (f : List Expr → α) :
    c.rel (do return f (← args.mapM inner)) (do return f (← args.mapM inner')) :=
  c.bind (c.mapM fun v hv => hinner v (hargs v hv)) fun _ => c.pure _

theorem rel_attributeAccess (harg : c.known arg) :
    c.rel (attributeAccess symbols inner arg) (attributeAccess symbols inner' arg) := by
  have hunfold := c.inherits.unfold harg
  unfold attributeAccess
  extract_lets continued continued'
  have hcontinued {parts : List Value} (hparts : ∀ v ∈ parts, c.known v) :
      c.rel (continued parts) (continued' parts) := by
    dsimp only [continued, continued']
    split
    · split
      · exact c.pure _
      · exact c.rel_items hinner hparts _
    · exact c.bind (c.written harg) fun _ => c.reject rfl
  split
  · unfold attributeTextParts
    split
    · exact hcontinued (List.forall_mem_cons.2
        ⟨c.inherits.str _, List.forall_mem_singleton.2 (c.inherits.str _)⟩)
    · exact c.reject rfl
  next parts hv => exact hcontinued (c.inherits.items (hv ▸ hunfold))
  · exact c.reject rfl

theorem rel_leadingName (declared : List String) (hargs : ∀ v ∈ args, c.known v) :
    c.rel (leadingName declared inner args) (leadingName declared inner' args) := by
  cases args with
  | nil => exact c.pure _
  | cons first others =>
    rw [List.forall_mem_cons] at hargs
    have hfirst := hinner first hargs.1
    unfold leadingName
    dsimp only
    split
    · exact c.ite (c.bind (c.pure _) fun _ => c.rel_items hinner hargs.2 _)
        (c.bind hfirst fun _ => c.rel_items hinner hargs.2 _)
    · exact c.bind hfirst fun _ => c.rel_items hinner hargs.2 _

theorem rel_listCall (function : String) (hargs : ∀ v ∈ args, c.known v) :
    c.rel (listCall symbols inner function args) (listCall symbols inner' function args) := by
  unfold listCall
  split
  · exact c.rel_items hinner hargs _
  · exact c.rel_items hinner hargs _
  · exact c.rel_items hinner hargs _
  next arg => exact c.bind (hinner arg (hargs arg (by simp))) fun _ => c.pure _
  · exact c.bind (c.rel_leadingName hinner _ hargs) fun _ => c.pure _
  · exact c.rel_items hinner hargs _

theorem rel_plainCall (function : String) (harg : c.known arg) :
    c.rel (plainCall symbols inner function arg) (plainCall symbols inner' function arg) := by
  have hunfold := c.inherits.unfold harg
  unfold plainCall
  split
  next first second more hv =>
    have hargs := c.inherits.items (hv ▸ hunfold)
    exact c.ite (c.bind (c.rel_leadingName hinner _ hargs) fun _ => c.pure _)
      (c.rel_items hinner hargs _)
  · exact c.bind (hinner arg harg) fun _ => c.pure _

theorem rel_functionCall (key function : String) (harg : c.known arg) :
    c.rel (functionCall symbols inner key function arg)
      (functionCall symbols inner' key function arg) := by
  have hunfold := c.inherits.unfold harg
  refine c.ite (c.rel_attributeAccess hinner harg) (c.ite ?_ (c.rel_plainCall hinner _ harg))
  split
  next args hv => exact c.rel_listCall hinner _ (c.inherits.items (hv ▸ hunfold))
  · exact c.reject rfl

/-- A mapping with one key has the form of an intrinsic function on both sides, or on none. -/
theorem rel_intrinsic (key : Value) (harg : c.known arg) :
    Option.Rel c.rel (intrinsic? symbols inner key arg) (intrinsic? symbols inner' key arg) := by
  unfold intrinsic?
  split
  · exact .some (c.pure _)
  · exact .some (c.pure _)
  · cases functionName? _ with
    | none => exact .none
    | some function => exact .some (c.rel_functionCall hinner _ function harg)
  · exact .none

/-! ### Values -/

theorem rel_fields {entries : List (Value × Value)} (h : c.known (.map entries)) :
    c.rel (fields inner entries) (fields inner' entries) := by
  refine c.mapM fun entry hentry => ?_
  obtain ⟨hkey, hvalue⟩ := c.inherits.entries h entry hentry
  exact c.bind (c.written hkey) fun _ => c.bind (hinner entry.2 hvalue) fun _ => c.pure _

theorem rel_valueWith {v : Value} (hv : c.known v) :
    c.rel (valueWith symbols inner v) (valueWith symbols inner' v) := by
  have hunfold := c.inherits.unfold hv
  unfold valueWith
  split
  · exact c.rel_scalar _
  next items hitems => exact c.rel_items hinner (c.inherits.items (hitems ▸ hunfold)) _
  next entries hentries =>
    rw [hentries] at hunfold
    have hobject : c.rel (do return .object (← fields inner entries) : Decompile Expr)
        (do return .object (← fields inner' entries)) :=
      c.bind (c.rel_fields hinner hunfold) fun _ => c.pure _
    split
    next key arg =>
      have h : Option.Rel c.rel (intrinsic? symbols inner key arg) _ :=
        c.rel_intrinsic hinner key (c.inherits.entries hunfold _ List.mem_cons_self).2
      generalize intrinsic? symbols inner key arg = step?,
        intrinsic? symbols inner' key arg = step'? at h ⊢
      cases h with
      | some h => exact h
      | none => exact hobject
    · exact hobject
  · exact c.reject rfl

end Values

theorem rel_valueAt (limit limit' : Nat) (symbols : SymbolTable) {n n' : Nat} (hn : n ≤ n')
    {v : Value} (hv : c.known v) :
    c.rel (valueAt limit symbols n v) (valueAt limit' symbols n' v) := by
  induction n generalizing n' v with
  | zero => exact c.tooDeep _ _
  | succ n ih =>
    obtain ⟨n', rfl⟩ := Nat.exists_eq_add_of_le' (Nat.le_of_add_left_le hn)
    exact c.within (c.rel_valueWith (fun v hv => ih (Nat.le_of_succ_le_succ hn) hv) hv)

/-! ### Declarations -/

section Scopes

variable {scope scope' : Scope} (hlimit : scope.limit ≤ scope'.limit)
  (hsymbols : scope'.symbols = scope.symbols) {entries : List (Value × Value)} {v : Value}
include hlimit hsymbols

theorem rel_value (hv : c.known v) :
    c.rel (value scope.limit scope.symbols v) (value scope'.limit scope'.symbols v) := by
  rw [hsymbols]
  exact c.atDepth fun depth => c.rel_valueAt scope.limit scope'.limit scope.symbols
    (Nat.sub_le_sub_right hlimit depth) hv

theorem rel_object (h : c.known (.map entries)) :
    c.rel (object scope entries) (object scope' entries) :=
  c.rel_fields (fun _ => c.rel_value hlimit hsymbols) h

theorem rel_body (name : String) (hv : c.known v) :
    c.rel (body scope name v) (body scope' name v) := by
  have hunfold := c.inherits.unfold hv
  unfold body
  split
  next entries hentries => exact c.rel_object hlimit hsymbols (hentries ▸ hunfold)
  · exact c.reject rfl

theorem rel_modifier (name : String) (hv : c.known v) :
    c.rel (modifier scope name v) (modifier scope' name v) := by
  have hvalue := c.rel_value hlimit hsymbols hv
  unfold modifier
  split
  · rw [hsymbols] at hvalue ⊢
    exact c.ite (c.pure _) (c.ite (c.pure _) hvalue)
  · split
    · rw [hsymbols]
      exact c.pure _
    · exact hvalue
  · exact hvalue

omit hlimit hsymbols in
theorem rel_resourceType (name : String) (entries : List (Value × Value)) :
    c.rel (resourceType name entries) (resourceType name entries) := by
  unfold resourceType
  split
  · exact c.ite (c.reject rfl) (c.pure _)
  · exact c.reject rfl

theorem rel_properties (name : String) (h : c.known (.map entries)) :
    c.rel (properties scope name entries) (properties scope' name entries) := by
  unfold properties
  split
  next v hv =>
    exact c.bind (c.rel_body hlimit hsymbols _ (c.inherits.lookup h hv)) fun _ => c.pure _
  · exact c.pure _

omit hlimit hsymbols in
/-- Of what stands in fixed places of a mapping, that which is present is known. -/
theorem mapM_present (h : c.known (.map entries)) {keys : List α} {key : α → String}
    {f f' : α × Value → Decompile β}
    (hf : ∀ a v, c.known v → c.rel (f (a, v)) (f' (a, v))) :
    let present := keys.filterMap fun a => (Value.lookup (key a) entries).map fun v => (a, v)
    c.rel (present.mapM f) (present.mapM f') := by
  refine c.mapM fun p hp => ?_
  obtain ⟨a, -, hp⟩ := List.mem_filterMap.1 hp
  obtain ⟨v, hv, rfl⟩ := Option.map_eq_some_iff.1 hp
  exact hf a v (c.inherits.lookup h hv)

theorem rel_modifiers (h : c.known (.map entries)) :
    c.rel (modifiers scope entries) (modifiers scope' entries) :=
  c.mapM_present h fun _ _ hv => c.bind (c.rel_modifier hlimit hsymbols _ hv) fun _ => c.pure _

/-- The declarations in all sections but that of resources. -/
theorem rel_declaration_of_ne {kind : DeclKind} (hkind : kind ≠ .resource) (name : String)
    (hv : c.known v) : c.rel (declaration scope kind name v) (declaration scope' kind name v) := by
  cases kind with
  | resource => exact absurd rfl hkind
  | condition => exact c.bind (c.rel_value hlimit hsymbols hv) fun _ => c.pure _
  | _ => exact c.bind (c.rel_body hlimit hsymbols name hv) fun _ => c.pure _

/-! ### Documents -/

omit hlimit hsymbols in
theorem rel_stringHeader (kind : Header) (v : Value) :
    c.rel (stringHeader kind v) (stringHeader kind v) := by
  unfold stringHeader
  split
  · exact c.pure _
  · exact c.reject rfl

theorem rel_mappingHeader (kind : Header) (hv : c.known v) :
    c.rel (mappingHeader scope kind v) (mappingHeader scope' kind v) := by
  have hunfold := c.inherits.unfold hv
  unfold mappingHeader
  split
  next entries hentries =>
    exact c.bind (c.rel_object hlimit hsymbols (hentries ▸ hunfold)) fun _ => c.pure _
  · exact c.reject rfl

theorem rel_transform (hv : c.known v) : c.rel (transform scope v) (transform scope' v) := by
  have hunfold := c.inherits.unfold hv
  unfold transform
  split
  · exact c.pure _
  · split
    · exact c.pure _
    · exact c.reject rfl
  next entries hentries =>
    exact c.bind (c.rel_object hlimit hsymbols (hentries ▸ hunfold)) fun _ => c.pure _
  · exact c.reject rfl

theorem rel_headerValue (kind : Header) (hv : c.known v) :
    c.rel (headerValue scope kind v) (headerValue scope' kind v) := by
  cases kind with
  | formatVersion => exact c.rel_stringHeader _ v
  | description => exact c.rel_stringHeader _ v
  | transform => exact c.rel_transform hlimit hsymbols hv
  | metadata => exact c.rel_mappingHeader hlimit hsymbols _ hv
  | globals => exact c.rel_mappingHeader hlimit hsymbols _ hv

theorem rel_headers (h : c.known (.map scope.entries)) (hentries : ∀ kind : Header,
      Value.lookup kind.keyword scope'.entries = Value.lookup kind.keyword scope.entries) :
    c.rel (headers scope) (headers scope') := by
  unfold headers
  simp only [hentries]
  exact c.mapM_present h fun _ _ hv =>
    c.bind (c.rel_headerValue hlimit hsymbols _ hv) fun _ => c.pure _

omit hlimit hsymbols in
theorem rel_assignments {kind : DeclKind} (h : c.known (.map scope.entries))
    (hentries : Value.lookup kind.sectionKey scope'.entries =
      Value.lookup kind.sectionKey scope.entries)
    (hkind : ∀ name v, c.known v →
      c.rel (declaration scope kind name v) (declaration scope' kind name v)) :
    c.rel (assignments scope kind) (assignments scope' kind) := by
  unfold assignments sectionEntries
  rw [hentries]
  split
  · exact c.pure []
  · exact c.pure []
  next inner hinner =>
    obtain ⟨v, hv, hunfold⟩ := Option.map_eq_some_iff.1 hinner
    have hknown := c.inherits.entries (hunfold ▸ c.inherits.unfold (c.inherits.lookup h hv))
    rw [pure_bind, pure_bind]
    refine c.mapM fun entry hentry => ?_
    obtain ⟨given, hgiven, rfl⟩ := List.mem_map.1 hentry
    exact c.bind (hkind _ _ (hknown given hgiven).2) fun _ => c.pure _
  · exact c.reject rfl

end Scopes

end Congruence

namespace WarningCongruence

variable (c : WarningCongruence) {scope scope' : Scope} (hlimit : scope.limit ≤ scope'.limit)
  (hsymbols : scope'.symbols = scope.symbols)

/-- Keys that are skipped leave a warning. -/
theorem rel_skipped (skip : Value → Bool) (warning : Value → Warning)
    (entries : List (Value × Value)) :
    let step (entry : Value × Value) : Decompile Unit :=
      if skip entry.1 then pure () else Decompile.warn (warning entry.1)
    c.rel (entries.forM step) (entries.forM step) := by
  intro step
  induction entries with
  | nil => exact c.pure _
  | cons entry entries ih => exact c.bind (c.ite (c.pure _) (c.warn _)) fun _ => ih

include hlimit hsymbols

theorem rel_resource (name : String) {v : Value} (hv : c.known v) :
    c.rel (resource scope name v) (resource scope' name v) := by
  have hunfold := c.inherits.unfold hv
  unfold resource
  split
  next entries hentries =>
    rw [hentries] at hunfold
    have hskipped := c.rel_skipped (isKnownKey resourceKeys) (.unknownKey · name) entries
    exact c.bind (c.rel_resourceType _ _) fun _ => c.bind hskipped fun _ =>
      c.bind (c.rel_properties hlimit hsymbols _ hunfold) fun _ =>
        c.bind (c.rel_modifiers hlimit hsymbols hunfold) fun _ => c.pure _
  · exact c.reject rfl

theorem rel_declaration (kind : DeclKind) (name : String) {v : Value} (hv : c.known v) :
    c.rel (declaration scope kind name v) (declaration scope' kind name v) := by
  by_cases hkind : kind = .resource
  · rw [hkind]
    exact c.rel_resource hlimit hsymbols name hv
  · exact c.rel_declaration_of_ne hlimit hsymbols hkind name hv

theorem rel_template (h : c.known (.map scope.entries))
    (hentries : scope'.entries = scope.entries) : c.rel (template scope) (template scope') := by
  have hassignments (kind : DeclKind) : c.rel (assignments scope kind) (assignments scope' kind) :=
    c.rel_assignments h (by rw [hentries]) fun name _ => c.rel_declaration hlimit hsymbols kind name
  unfold template
  rw [hentries]
  exact c.bind (c.rel_skipped (isKnownKey sectionOrder) .unknownSection scope.entries) fun _ =>
    c.bind (c.rel_headers hlimit hsymbols h fun _ => by rw [hentries]) fun _ =>
      c.bind (c.mapM fun kind _ => hassignments kind) fun _ => c.pure _

end WarningCongruence

end Decompile

end StackScript
