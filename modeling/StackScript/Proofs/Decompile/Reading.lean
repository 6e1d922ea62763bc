import Mathlib.Data.List.Forall2
import StackScript.Decompile.Value

/-!
# What values are read as

Reading a value is described by a relation between values and expressions, so that what follows
from it is proved by cases on the forms of the result and not by running the steps again. The
relation covers all values, also collections that contain themselves.

## Main definitions

* `Decompile.Gives`: the results of a step, from whatever state it starts.
* `Decompile.Reading`, `Decompile.Calling`, `Decompile.Leading`: the forms that one level of a value
  is read as, given what the values inside it are read as.
* `Decompile.ReadsAs`: the expressions that a value is read as within a number of levels.

## Main results

* `Decompile.reading_of_gives`: one step of reading gives only expressions of these forms.
* `Decompile.readsAs_of_gives`: what a value is read as.
-/

namespace StackScript.Decompile

open Number Text

variable {α β : Type}

/-! ### Results of steps -/

theorem run_bind_ok {m : Decompile α} {f : α → Decompile β} {s u : DecompileState} {a : α}
    (h : m.run.run s = (.ok a, u)) : (m >>= f).run.run s = (f a).run.run u := by
  simp only [ExceptT.run_bind, StateT.run_bind, h]
  rfl

theorem exists_of_run_bind {m : Decompile α} {f : α → Decompile β} {s u : DecompileState} {b : β}
    (h : (m >>= f).run.run s = (.ok b, u)) :
    ∃ a t, m.run.run s = (.ok a, t) ∧ (f a).run.run t = (.ok b, u) := by
  cases hm : m.run.run s with
  | mk r t =>
    cases r with
    | error e =>
      simp only [ExceptT.run_bind, StateT.run_bind, hm] at h
      cases h
    | ok a => exact ⟨a, t, rfl, (run_bind_ok hm).symm.trans h⟩

/-- A step one level further in leaves that level again. -/
theorem run_within (m : Decompile α) (s : DecompileState) :
    (within m).run.run s = ((m.run.run { s with depth := s.depth + 1 }).1,
      { (m.run.run { s with depth := s.depth + 1 }).2 with
        depth := (m.run.run { s with depth := s.depth + 1 }).2.depth - 1 }) := rfl

/-- A step gives a result: from some state it succeeds with it. -/
def Gives (m : Decompile α) (a : α) : Prop := ∃ s s', m.run.run s = (.ok a, s')

theorem gives_pure {a b : α} : Gives (pure a) b ↔ b = a := by
  constructor
  · rintro ⟨s, s', h⟩
    cases h
    rfl
  · rintro rfl
    exact ⟨{}, {}, rfl⟩

theorem Gives.of_bind {m : Decompile α} {f : α → Decompile β} {b : β} (h : Gives (m >>= f) b) :
    ∃ a, Gives m a ∧ Gives (f a) b := by
  obtain ⟨s, s', h⟩ := h
  cases hm : m.run.run s with
  | mk r s₁ =>
    cases r with
    | error e =>
      simp only [ExceptT.run_bind, StateT.run_bind, hm] at h
      cases h
    | ok a =>
      refine ⟨a, ⟨s, s₁, hm⟩, s₁, s', ?_⟩
      simp only [ExceptT.run_bind, StateT.run_bind, hm] at h
      exact h

theorem not_gives_throw {e : DecompileError} {a : α} : ¬ Gives (throw e) a := by
  rintro ⟨s, s', h⟩
  cases h

theorem not_gives_reject {fault : DecodeFault} {a : α} : ¬ Gives (reject fault) a :=
  not_gives_throw

theorem not_gives_tooDeep {limit : Nat} {a : α} : ¬ Gives (tooDeep limit) a := by
  intro h
  obtain ⟨u, -, h⟩ := h.of_bind
  exact not_gives_reject h

theorem Gives.of_within {m : Decompile α} {a : α} (h : Gives (within m) a) : Gives m a := by
  obtain ⟨s, s', h⟩ := h
  refine ⟨{ s with depth := s.depth + 1 }, (m.run.run { s with depth := s.depth + 1 }).2, ?_⟩
  have : (m.run.run { s with depth := s.depth + 1 }).1 = .ok a := congrArg Prod.fst h
  exact Prod.ext this rfl

theorem Gives.of_mapM {f : α → Decompile β} {l : List α} {bs : List β} (h : Gives (l.mapM f) bs) :
    List.Forall₂ (fun a b => Gives (f a) b) l bs := by
  induction l generalizing bs with
  | nil =>
    obtain rfl := gives_pure.1 h
    exact .nil
  | cons a l ih =>
    rw [List.mapM_cons] at h
    obtain ⟨b, hb, h⟩ := h.of_bind
    obtain ⟨bs', hbs, h⟩ := h.of_bind
    obtain rfl := gives_pure.1 h
    exact .cons hb (ih hbs)


theorem gives_written {text? : Option String} {text : String} :
    Gives (written text?) text ↔ text? = some text := by
  cases text? with
  | none => exact iff_of_false not_gives_throw (by simp)
  | some s => exact gives_pure.trans (by simp [eq_comm])

/-! ### What a value is read as -/

/-- The parts of an attribute access: an item of a list each, or the text before and after the first
dot of a string. -/
inductive AttributeParts (arg : Value) : List Value → Prop
  | text {text : String} {base first : List Char} {more : List (List Char)}
      (hv : arg.unfold = .str text) (hs : splitAtChar '.' text.toList = base :: first :: more) :
      AttributeParts arg
        [.str (String.ofList base), .str (String.ofList (List.intercalate ['.'] (first :: more)))]
  | list {parts : List Value} (hv : arg.unfold = .list parts) : AttributeParts arg parts

/-- Arguments of which the first may be a declared name. -/
inductive Leading (declared : List String) (inner : Value → Expr → Prop) :
    List Value → List Expr → Prop
  | nil : Leading declared inner [] []
  | name {x : String} {others : List Value} {es : List Expr} (hd : declared.contains x = true)
      (hb : isBareName x = true) (ho : List.Forall₂ inner others es) :
      Leading declared inner (.str x :: others) (.name x :: es)
  | value {first : Value} {e : Expr} {others : List Value} {es : List Expr} (hf : inner first e)
      (ho : List.Forall₂ inner others es) : Leading declared inner (first :: others) (e :: es)

/-- What the call of a function is read as, given what the values inside it are read as. -/
inductive Calling (symbols : SymbolTable) (inner : Value → Expr → Prop) :
    String → Value → Expr → Prop
  | access {arg base first : Value} {more : List Value} {e : Expr}
      (hp : AttributeParts arg (base :: first :: more))
      (he : accessExpr? symbols base (first :: more) = some e) :
      Calling symbols inner "GetAtt" arg e
  | attributeCall {arg base first : Value} {more : List Value} {es : List Expr}
      (hp : AttributeParts arg (base :: first :: more))
      (hi : List.Forall₂ inner (base :: first :: more) es) :
      Calling symbols inner "GetAtt" arg (.call "GetAtt" es none)
  | equals {arg : Value} {args : List Value} {es : List Expr} (hv : arg.unfold = .list args)
      (hl : args.length = 2) (hi : List.Forall₂ inner args es) :
      Calling symbols inner "Equals" arg (.call "Equals" es (some .eq))
  | conjunction {arg : Value} {args : List Value} {es : List Expr} (hv : arg.unfold = .list args)
      (hl : 2 ≤ args.length) (hi : List.Forall₂ inner args es) :
      Calling symbols inner "And" arg (.call "And" es (some .and))
  | disjunction {arg : Value} {args : List Value} {es : List Expr} (hv : arg.unfold = .list args)
      (hl : 2 ≤ args.length) (hi : List.Forall₂ inner args es) :
      Calling symbols inner "Or" arg (.call "Or" es (some .or))
  | negation {arg item : Value} {e : Expr} (hv : arg.unfold = .list [item]) (hi : inner item e) :
      Calling symbols inner "Not" arg (negation e)
  | lookup {arg : Value} {args : List Value} {es : List Expr} (hv : arg.unfold = .list args)
      (hi : Leading symbols.mappings inner args es) :
      Calling symbols inner "FindInMap" arg (.call "FindInMap" es none)
  | choice {arg : Value} {args : List Value} {es : List Expr} (hv : arg.unfold = .list args)
      (hl : 2 ≤ args.length) (hi : Leading symbols.conditions inner args es) :
      Calling symbols inner "If" arg (.call "If" es none)
  | spread {function : String} {arg : Value} {args : List Value} {es : List Expr}
      (hv : arg.unfold = .list args) (hl : listFunctions.contains function = true ∨ 2 ≤ args.length)
      (hh : function ≠ "If" ∧ function ≠ "FindInMap") (hg : function ≠ "GetAtt")
      (hi : List.Forall₂ inner args es) :
      Calling symbols inner function arg (.call function es none)
  | one {function : String} {arg : Value} {e : Expr} (hf : listFunctions.contains function = false)
      (hl : ∀ args, arg.unfold = .list args → args.length < 2) (hg : function ≠ "GetAtt")
      (hi : inner arg e) :
      Calling symbols inner function arg (.call function [e] none)

/-- Whether no intrinsic function is written by a mapping with these entries. -/
def IsPlain (entries : List (Value × Value)) : Prop :=
  ∀ key arg, entries = [(.str key, arg)] →
    functionName? key = none ∧ ∀ x, arg = .str x → key ≠ "Ref" ∧ key ≠ "Condition"

/-- What a value is read as, given what the values inside it are read as. -/
inductive Reading (symbols : SymbolTable) (inner : Value → Expr → Prop) : Value → Expr → Prop
  | scalar {v : Value} {s : Scalar} (hv : v.unfold = .scalar s)
      (hs : ∀ x, s = .float x → x.isFinite = true) : Reading symbols inner v (.literal s)
  | list {v : Value} {items : List Value} {es : List Expr} (hv : v.unfold = .list items)
      (hi : List.Forall₂ inner items es) : Reading symbols inner v (.array es)
  | object {v : Value} {entries : List (Value × Value)} {fields : List (String × Expr)}
      (hv : v.unfold = .map entries)
      (hn : IsPlain entries)
      (hi : List.Forall₂ (fun entry field => entry.1.text? = some field.1 ∧ inner entry.2 field.2)
        entries fields) : Reading symbols inner v (.object fields)
  | reference {v : Value} {x : String} (hv : v.unfold = .map [(.str "Ref", .str x)]) :
      Reading symbols inner v (reference symbols x)
  | conditionReference {v : Value} {x : String}
      (hv : v.unfold = .map [(.str "Condition", .str x)]) :
      Reading symbols inner v (conditionReference symbols x)
  | function {v arg : Value} {key function : String} {e : Expr}
      (hv : v.unfold = .map [(.str key, arg)]) (hf : functionName? key = some function)
      (hc : Calling symbols inner function arg e) : Reading symbols inner v e

/-- What a value is read as when it may nest to a number of levels. -/
def ReadsAs (symbols : SymbolTable) : (levels : Nat) → Value → Expr → Prop
  | 0, _, _ => False
  | levels + 1, v, e => Reading symbols (ReadsAs symbols levels) v e


/-! ### Every result has one of these forms -/

section Inversion

variable {symbols : SymbolTable} {inner : Value → Decompile Expr}

/-- The relation between values and what a way of reading gives for them. -/
private abbrev Given (inner : Value → Decompile Expr) (v : Value) (e : Expr) : Prop :=
  Gives (inner v) e

/-- The properties that the entries of a mapping are read as. -/
theorem forall₂_of_gives_fields {entries : List (Value × Value)} {fs : List (String × Expr)}
    (h : Gives (fields inner entries) fs) :
    List.Forall₂ (fun entry field => entry.1.text? = some field.1 ∧ Gives (inner entry.2) field.2)
      entries fs := by
  refine h.of_mapM.imp fun entry field hf => ?_
  obtain ⟨key, hk, hf⟩ := hf.of_bind
  obtain ⟨e, he, hf⟩ := hf.of_bind
  obtain rfl := gives_pure.1 hf
  exact ⟨gives_written.1 hk, he⟩

private theorem leading_of_gives {declared : List String} {args : List Value} {es : List Expr}
    (h : Gives (leadingName declared inner args) es) : Leading declared (Given inner) args es := by
  cases args with
  | nil =>
    obtain rfl := gives_pure.1 h
    exact .nil
  | cons first others =>
    have rest_of_gives {m : Decompile Expr} {es : List Expr}
        (h : Gives (m >>= fun head => others.mapM inner >>= fun es => pure (head :: es)) es) :
        ∃ e es', es = e :: es' ∧ Gives m e ∧ List.Forall₂ (Given inner) others es' := by
      obtain ⟨head, hh, h⟩ := h.of_bind
      obtain ⟨rest, hr, h⟩ := h.of_bind
      exact ⟨head, rest, gives_pure.1 h, hh, hr.of_mapM⟩
    simp only [leadingName] at h
    split at h
    next x =>
      split_ifs at h with hd
      · obtain ⟨e, es, rfl, he, hr⟩ := rest_of_gives h
        obtain rfl := gives_pure.1 he
        rw [Bool.and_eq_true] at hd
        exact .name hd.1 hd.2 hr
      · obtain ⟨e, es, rfl, he, hr⟩ := rest_of_gives h
        exact .value he hr
    · obtain ⟨e, es, rfl, he, hr⟩ := rest_of_gives h
      exact .value he hr

private theorem calling_attribute {arg : Value} {e : Expr}
    (h : Gives (attributeAccess symbols inner arg) e) :
    Calling symbols (Given inner) "GetAtt" arg e := by
  unfold attributeAccess at h
  extract_lets continued at h
  -- Whatever the argument is, its parts are what the access continues with.
  obtain ⟨parts, hp, h⟩ : ∃ parts, AttributeParts arg parts ∧ Gives (continued parts) e := by
    split at h
    next text hv =>
      obtain ⟨parts, hp, h⟩ := h.of_bind
      unfold attributeTextParts at hp
      split at hp
      next hs =>
        obtain rfl := gives_pure.1 hp
        exact ⟨_, .text hv hs, h⟩
      · exact absurd hp not_gives_reject
    next parts hv =>
      obtain ⟨parts, hp, h⟩ := h.of_bind
      obtain rfl := gives_pure.1 hp
      exact ⟨_, .list hv, h⟩
    · obtain ⟨parts, hp, -⟩ := h.of_bind
      exact absurd hp not_gives_reject
  dsimp only [continued] at h
  split at h
  next base first more =>
    split at h
    next access ha =>
      obtain rfl := gives_pure.1 h
      exact .access hp ha
    next ha =>
      obtain ⟨es, hes, h⟩ := h.of_bind
      obtain rfl := gives_pure.1 h
      exact .attributeCall hp hes.of_mapM
  · obtain ⟨d, -, h⟩ := h.of_bind
    exact absurd h not_gives_reject

private theorem calling_list {function : String} {arg : Value} {args : List Value} {e : Expr}
    (hv : arg.unfold = .list args) (hf : listFunctions.contains function = true)
    (h : Gives (listCall symbols inner function args) e) :
    Calling symbols (Given inner) function arg e := by
  unfold listCall at h
  split at h
  next a b =>
    obtain ⟨es, hes, h⟩ := h.of_bind
    obtain rfl := gives_pure.1 h
    exact .equals hv rfl hes.of_mapM
  next a b more =>
    obtain ⟨es, hes, h⟩ := h.of_bind
    obtain rfl := gives_pure.1 h
    exact .conjunction hv (by simp) hes.of_mapM
  next a b more =>
    obtain ⟨es, hes, h⟩ := h.of_bind
    obtain rfl := gives_pure.1 h
    exact .disjunction hv (by simp) hes.of_mapM
  next item =>
    obtain ⟨x, hx, h⟩ := h.of_bind
    obtain rfl := gives_pure.1 h
    exact .negation hv hx
  next =>
    obtain ⟨es, hes, h⟩ := h.of_bind
    obtain rfl := gives_pure.1 h
    exact .lookup hv (leading_of_gives hes)
  next hfind _ _ _ _ =>
    obtain ⟨es, hes, h⟩ := h.of_bind
    obtain rfl := gives_pure.1 h
    have hne {word : String} (hw : listFunctions.contains word = false) : function ≠ word := by
      rintro rfl
      exact Bool.false_ne_true (hw.symm.trans hf)
    exact .spread hv (.inl hf) ⟨hne (by decide), hfind⟩ (hne (by decide)) hes.of_mapM

private theorem calling_plain {function : String} {arg : Value} {e : Expr}
    (hf : listFunctions.contains function = false) (hg : function ≠ "GetAtt")
    (h : Gives (plainCall symbols inner function arg) e) :
    Calling symbols (Given inner) function arg e := by
  unfold plainCall at h
  split at h
  next first second more hv =>
    have hl : 2 ≤ (first :: second :: more).length := by simp
    split_ifs at h with hif
    · subst hif
      obtain ⟨es, hes, h⟩ := h.of_bind
      obtain rfl := gives_pure.1 h
      exact .choice hv hl (leading_of_gives hes)
    · obtain ⟨es, hes, h⟩ := h.of_bind
      obtain rfl := gives_pure.1 h
      refine .spread hv (.inr hl) ⟨hif, ?_⟩ hg hes.of_mapM
      rintro rfl
      exact absurd hf (by decide)
  next hv =>
    obtain ⟨x, hx, h⟩ := h.of_bind
    obtain rfl := gives_pure.1 h
    refine .one hf (fun args ha => ?_) hg hx
    rcases args with _ | ⟨first, _ | ⟨second, more⟩⟩
    · simp
    · simp
    · exact absurd ha (hv first second more)

private theorem calling_of_gives {key function : String} {arg : Value} {e : Expr}
    (h : Gives (functionCall symbols inner key function arg) e) :
    Calling symbols (Given inner) function arg e := by
  unfold functionCall at h
  split_ifs at h with hg hl
  · subst hg
    exact calling_attribute h
  · split at h
    next args hv => exact calling_list hv hl h
    · exact absurd h not_gives_reject
  · exact calling_plain (Bool.eq_false_iff.2 hl) hg h

end Inversion

/-- **What a step of reading values can give.** -/
theorem reading_of_gives {symbols : SymbolTable} {inner : Value → Decompile Expr} {v : Value}
    {e : Expr} (h : Gives (valueWith symbols inner v) e) :
    Reading symbols (fun v e => Gives (inner v) e) v e := by
  unfold valueWith at h
  split at h
  next s hv =>
    cases s with
    | float x =>
      simp only [scalar] at h
      split_ifs at h with hx
      · obtain rfl := gives_pure.1 h
        refine .scalar hv fun y hy => ?_
        cases hy
        exact hx
      · exact absurd h not_gives_reject
    | _ =>
      obtain rfl := gives_pure.1 h
      exact .scalar hv (by simp)
  next items hv =>
    obtain ⟨es, hes, h⟩ := h.of_bind
    obtain rfl := gives_pure.1 h
    exact .list hv hes.of_mapM
  next entries hv =>
    split at h
    next key arg =>
      split at h
      next step hi =>
        unfold intrinsic? at hi
        split at hi
        next x =>
          cases hi
          obtain rfl := gives_pure.1 h
          exact .reference hv
        next x =>
          cases hi
          obtain rfl := gives_pure.1 h
          exact .conditionReference hv
        next =>
          obtain ⟨function, hf, rfl⟩ := Option.map_eq_some_iff.1 hi
          exact .function hv hf (calling_of_gives h)
        · cases hi
      next hi =>
        obtain ⟨fs, hfs, h⟩ := h.of_bind
        obtain rfl := gives_pure.1 h
        refine .object hv (fun k a hk => ?_) (forall₂_of_gives_fields hfs)
        cases hk
        unfold intrinsic? at hi
        split at hi
        · cases hi
        · cases hi
        next hk href hcond =>
          cases hk
          exact ⟨Option.map_eq_none_iff.1 hi, fun x hx => ⟨href x hx, hcond x hx⟩⟩
        next hk _ _ => exact absurd rfl (hk _)
    next hne =>
      obtain ⟨fs, hfs, h⟩ := h.of_bind
      obtain rfl := gives_pure.1 h
      exact .object hv (fun k a hk => absurd hk (hne _ _)) (forall₂_of_gives_fields hfs)
  · exact absurd h not_gives_reject

/-! ### The forms of attribute accesses -/

theorem allStrings?_eq_some {vs : List Value} {names : List String}
    (h : allStrings? vs = some names) : vs = names.map .str := by
  induction vs generalizing names with
  | nil =>
    cases h
    rfl
  | cons v vs ih =>
    unfold allStrings? at h
    split at h
    · simp_all
    next hv =>
      cases hv
      obtain ⟨names', hnames, rfl⟩ := Option.map_eq_some_iff.1 h
      rw [ih hnames]
      rfl
    · cases h

/-- An attribute access is written with dots or in brackets after the bare name of a declared
resource. -/
theorem accessExpr?_eq_some {symbols : SymbolTable} {base : Value} {attributes : List Value}
    {e : Expr} (h : accessExpr? symbols base attributes = some e) :
    ∃ resource names, base = .str resource ∧ attributes = names.map .str ∧
      symbols.resources.contains resource = true ∧ isBareName resource = true ∧
      ((∃ path, names = [path] ∧ (splitAtChar '.' path.toList).all isIdentifier = true ∧
          e = .member (.name resource) ((splitAtChar '.' path.toList).map String.ofList)) ∨
        e = .bracket (.name resource) names) := by
  unfold accessExpr? at h
  split at h
  next resource names hnames =>
    obtain rfl := allStrings?_eq_some hnames
    split_ifs at h with hres
    rw [Bool.and_eq_true] at hres
    refine ⟨resource, names, rfl, rfl, hres.1, hres.2, ?_⟩
    split at h
    next path =>
      dsimp only at h
      split_ifs at h with hseg
      · exact .inl ⟨path, rfl, hseg, (Option.some.inj h).symm⟩
      · exact .inr (Option.some.inj h).symm
    · exact .inr (Option.some.inj h).symm
  · cases h

/-! ### All levels -/

section Monotonicity

variable {symbols : SymbolTable} {inner inner' : Value → Expr → Prop}

private theorem Leading.mono {declared : List String} {args : List Value} {es : List Expr}
    (hsub : ∀ v e, inner v e → inner' v e) (h : Leading declared inner args es) :
    Leading declared inner' args es := by
  cases h with
  | nil => exact .nil
  | name hd hb ho => exact .name hd hb (ho.imp hsub)
  | value hf ho => exact .value (hsub _ _ hf) (ho.imp hsub)

private theorem Calling.mono {function : String} {arg : Value} {e : Expr}
    (hsub : ∀ v e, inner v e → inner' v e) (h : Calling symbols inner function arg e) :
    Calling symbols inner' function arg e := by
  cases h with
  | access hp he => exact .access hp he
  | attributeCall hp hi => exact .attributeCall hp (hi.imp hsub)
  | equals hv hl hi => exact .equals hv hl (hi.imp hsub)
  | conjunction hv hl hi => exact .conjunction hv hl (hi.imp hsub)
  | disjunction hv hl hi => exact .disjunction hv hl (hi.imp hsub)
  | negation hv hi => exact .negation hv (hsub _ _ hi)
  | lookup hv hi => exact .lookup hv (hi.mono hsub)
  | choice hv hl hi => exact .choice hv hl (hi.mono hsub)
  | spread hv hl hh hg hi => exact .spread hv hl hh hg (hi.imp hsub)
  | one hf hl hg hi => exact .one hf hl hg (hsub _ _ hi)

theorem Reading.mono {v : Value} {e : Expr} (hsub : ∀ v e, inner v e → inner' v e)
    (h : Reading symbols inner v e) : Reading symbols inner' v e := by
  cases h with
  | scalar hv hs => exact .scalar hv hs
  | list hv hi => exact .list hv (hi.imp hsub)
  | object hv hn hi => exact .object hv hn (hi.imp fun _ _ h => ⟨h.1, hsub _ _ h.2⟩)
  | reference hv => exact .reference hv
  | conditionReference hv => exact .conditionReference hv
  | function hv hf hc => exact .function hv hf (hc.mono hsub)

end Monotonicity

/-- What a value is read as when it may nest to a number of levels. -/
theorem readsAs_of_gives {limit levels : Nat} {symbols : SymbolTable} {v : Value} {e : Expr}
    (h : Gives (valueAt limit symbols levels v) e) : ReadsAs symbols levels v e := by
  induction levels generalizing v e with
  | zero => exact absurd h not_gives_tooDeep
  | succ levels ih => exact (reading_of_gives h.of_within).mono fun _ _ => ih

/-- What a value is read as at the current depth: no more levels than the limit are left there. -/
theorem exists_readsAs_of_gives {limit : Nat} {symbols : SymbolTable} {v : Value} {e : Expr}
    (h : Gives (value limit symbols v) e) : ∃ levels ≤ limit, ReadsAs symbols levels v e := by
  obtain ⟨s, -, h⟩ := h.of_bind
  exact ⟨limit - s.depth, Nat.sub_le .., readsAs_of_gives h⟩

end StackScript.Decompile
