import StackScript.Grammar.Script
import StackScript.Proofs.Token.Scan
import StackScript.Spelling

/-!
# Expressions that are read back from their spelling

An expression can be read back in a place that asks for a precedence, with a number of nesting
levels left, if every name in it is a word that stands for no literal and no declaration, operators
have the operands they need, keys differ, and the parentheses that its spelling puts around operands
leave enough levels.

## Main definitions

* `IsName`: the words that are read as names.
* `Scalar.IsSpellable`: the literals that have a spelling.
* `Readable`: the expressions that denote values.
* `Declared`: the declarations.
* `Statement.IsReadable`, `Template.IsReadable`: statements and templates.

## Main results

* `Readable.mono`, `Readable.lower`, `Readable.operand`: more levels, and other places.
-/

namespace StackScript

open Text Number

/-! ### Names and literals -/

/-- A word that is read as a name: it is neither a literal nor a keyword of a declaration. -/
structure IsName (x : String) : Prop where
  word : isWord x.toList = true
  literal : Reader.keywordLiteral? x = none
  resource : x ≠ "Resource"
  condition : x ≠ "Condition"
  body : BodyKind.ofKeyword? x = none

/-- The name of a pseudo parameter is that of the base, and an attribute. -/
def pseudoName (attr : String) : String := Expr.pseudoBase ++ "::" ++ attr

theorem isPseudo_pseudoName (attr : String) : Expr.isPseudo (pseudoName attr) = true := by
  simp [Expr.isPseudo, pseudoName, Expr.pseudoStart, Expr.pseudoBase, String.toList_append]

theorem pseudoTail_pseudoName (attr : String) : Expr.pseudoTail (pseudoName attr) = attr := by
  simp [Expr.pseudoTail, pseudoName, Expr.pseudoStart, Expr.pseudoBase, String.toList_append]

/-- Whether a literal has a spelling that is read back: integers are not too long, and
floating-point numbers are finite. -/
def Scalar.IsSpellable : Scalar → Prop
  | .int n => (writeInt? n).isSome = true
  | .float x => x.isFinite = true
  | _ => True

/-! ### Values -/

/-- An expression that is read back in a place, with a number of nesting levels left. -/
inductive Readable : (levels place : Nat) → Expr → Prop
  | literal {levels place : Nat} {s : Scalar} (hs : s.IsSpellable) :
      Readable levels place (.literal s)
  | name {levels place : Nat} {x : String} (hx : IsName x) : Readable levels place (.name x)
  | pseudo {levels place : Nat} {attr : String} (ha : isWord attr.toList = true) :
      Readable levels place (.name (pseudoName attr))
  | object {levels place : Nat} {fields : List (String × Expr)}
      (hkeys : (fields.map Prod.fst).Nodup) (hl : fields ≠ [] → 0 < levels)
      (hf : ∀ field ∈ fields, Readable (levels - 1) 1 field.2) :
      Readable levels place (.object fields)
  | array {levels place : Nat} {items : List Expr} (hl : items ≠ [] → 0 < levels)
      (hi : ∀ e ∈ items, Readable (levels - 1) 1 e) : Readable levels place (.array items)
  | member {levels place : Nat} {x : String} {path : List String} (hx : IsName x)
      (hbase : x ≠ Expr.pseudoBase) (hne : path ≠ [])
      (hp : ∀ segment ∈ path, isWord segment.toList = true) :
      Readable levels place (.member (.name x) path)
  | bracket {levels place : Nat} {x : String} {path : List String}
      (hb : Readable levels 4 (.name x)) (hne : path ≠ []) :
      Readable levels place (.bracket (.name x) path)
  | call {levels place : Nat} {function : String} {args : List Expr} (hf : IsName function)
      (href : function = "Ref" → ∃ s, args = [.literal (.str s)]) (hl : args ≠ [] → 0 < levels)
      (ha : ∀ e ∈ args, Readable (levels - 1) 1 e) :
      Readable levels place (.call function args none)
  | negation {levels place : Nat} {e : Expr} (hp : place ≤ 4) (hl : 0 < levels)
      (he : Readable (levels - 1) 4 e) : Readable levels place (.call "Not" [e] (some .not))
  | equality {levels place : Nat} {left right : Expr} (hp : place ≤ 3)
      (hl : Readable levels 4 left) (hr : Readable levels 4 right) :
      Readable levels place (.call "Equals" [left, right] (some .eq))
  | inequality {levels place : Nat} {left right : Expr} (hp : place ≤ 3)
      (hl : Readable levels 4 left) (hr : Readable levels 4 right) :
      Readable levels place (.call "Not" [.call "Equals" [left, right] none] (some .ne))
  | conjunction {levels place : Nat} {args : List Expr} (hp : place ≤ 2) (hn : 2 ≤ args.length)
      (ha : ∀ e ∈ args, Readable levels 3 e) : Readable levels place (.call "And" args (some .and))
  | disjunction {levels place : Nat} {args : List Expr} (hp : place ≤ 1) (hn : 2 ≤ args.length)
      (ha : ∀ e ∈ args, Readable levels 2 e) : Readable levels place (.call "Or" args (some .or))
  | grouped {levels place : Nat} {e : Expr} (hp : e.precedence < place) (hl : 0 < levels)
      (he : Readable (levels - 1) 1 e) : Readable levels place e

namespace Readable

variable {levels more place other : Nat} {e : Expr}

/-- More levels do no harm. -/
theorem mono (h : Readable levels place e) (hle : levels ≤ more) : Readable more place e := by
  induction h generalizing more with
  | literal hs => exact .literal hs
  | name hx => exact .name hx
  | pseudo ha => exact .pseudo ha
  | object hkeys hl _ ih =>
    exact .object hkeys (fun h => (hl h).trans_le hle) fun f hf => ih f hf (by omega)
  | array hl _ ih => exact .array (fun h => (hl h).trans_le hle) fun e he => ih e he (by omega)
  | member hx hbase hne hp => exact .member hx hbase hne hp
  | bracket _ hne ih => exact .bracket (ih hle) hne
  | call hf href hl _ ih =>
    exact .call hf href (fun h => (hl h).trans_le hle) fun e he => ih e he (by omega)
  | negation hp hl _ ih => exact .negation hp (hl.trans_le hle) (ih (by omega))
  | equality hp _ _ ihl ihr => exact .equality hp (ihl hle) (ihr hle)
  | inequality hp _ _ ihl ihr => exact .inequality hp (ihl hle) (ihr hle)
  | conjunction hp hn _ ih => exact .conjunction hp hn fun e he => ih e he hle
  | disjunction hp hn _ ih => exact .disjunction hp hn fun e he => ih e he hle
  | grouped hp hl _ ih => exact .grouped hp (hl.trans_le hle) (ih (by omega))

/-- An expression needs no parentheses in a place that asks for no more than its precedence. -/
theorem place_of_le (h : Readable levels place e) (hp : other ≤ e.precedence) :
    Readable levels other e := by
  induction h generalizing other with
  | literal hs => exact .literal hs
  | name hx => exact .name hx
  | pseudo ha => exact .pseudo ha
  | object hkeys hl hf _ => exact .object hkeys hl hf
  | array hl hi _ => exact .array hl hi
  | member hx hbase hne hpath => exact .member hx hbase hne hpath
  | bracket hb hne _ => exact .bracket hb hne
  | call hf href hl ha _ => exact .call hf href hl ha
  | negation _ hl he _ => exact .negation hp hl he
  | equality _ hl hr _ _ => exact .equality hp hl hr
  | inequality _ hl hr _ _ => exact .inequality hp hl hr
  | conjunction _ hn ha _ => exact .conjunction hp hn ha
  | disjunction _ hn ha _ => exact .disjunction hp hn ha
  | grouped _ hl _ ih => exact (ih hp).mono (Nat.sub_le ..)

/-- An expression that needs one level less fits every place, in parentheses if need be. -/
theorem operand (h : Readable (levels - 1) 1 e) (hl : 0 < levels) : Readable levels place e := by
  by_cases hp : e.precedence < place
  · exact .grouped hp hl h
  · exact (h.place_of_le (Nat.le_of_not_lt hp)).mono (Nat.sub_le ..)

/-- A place that asks for less does no harm. -/
theorem lower (h : Readable levels place e) (hle : other ≤ place) : Readable levels other e := by
  cases h with
  | grouped _ hl he => exact he.operand hl
  | literal hs => exact .literal hs
  | name hx => exact .name hx
  | pseudo ha => exact .pseudo ha
  | object hkeys hl hf => exact .object hkeys hl hf
  | array hl hi => exact .array hl hi
  | member hx hbase hne hp => exact .member hx hbase hne hp
  | bracket hb hne => exact .bracket hb hne
  | call hf href hl ha => exact .call hf href hl ha
  | negation hp hl he => exact .negation (hle.trans hp) hl he
  | equality hp hl hr => exact .equality (hle.trans hp) hl hr
  | inequality hp hl hr => exact .inequality (hle.trans hp) hl hr
  | conjunction hp hn ha => exact .conjunction (hle.trans hp) hn ha
  | disjunction hp hn ha => exact .disjunction (hle.trans hp) hn ha

end Readable

/-! ### Declarations, statements and templates -/

/-- What a policy modifier says of a bare name. -/
def Reader.PolicyHolds (m : String × Expr) : Prop :=
  ∀ allowed x, policyValues? m.1 = some allowed → m.2 = .name x → allowed.contains x = true

/-- A declaration that is read back with a number of nesting levels left. -/
inductive Declared (levels : Nat) : Expr → Prop
  | resource {type : String} {properties : Option (List (String × Expr))}
      {modifiers : List (String × Expr)} (ht : type ≠ "")
      (hp : ∀ fields, properties = some fields → Readable levels 4 (.object fields))
      (hnames : ∀ m ∈ modifiers, modifierNames.contains m.1 = true)
      (hkeys : (modifiers.map Prod.fst).Nodup) (hl : modifiers ≠ [] → 0 < levels)
      (hm : ∀ m ∈ modifiers, Readable (levels - 1) 1 m.2)
      (hpolicy : ∀ m ∈ modifiers, ∀ allowed x, policyValues? m.1 = some allowed → m.2 = .name x →
        allowed.contains x = true) : Declared levels (.resource type properties modifiers)
  | body {kind : BodyKind} {fields : List (String × Expr)}
      (hf : Readable levels 4 (.object fields)) : Declared levels (.body kind fields)
  | condition {test : Expr} (hl : 0 < levels) (ht : Readable (levels - 1) 1 test) :
      Declared levels (.condition test)

theorem Declared.mono {levels more : Nat} {e : Expr} (h : Declared levels e)
    (hle : levels ≤ more) : Declared more e := by
  cases h with
  | resource ht hp hnames hkeys hl hm hpolicy =>
    exact .resource ht (fun fields h => (hp fields h).mono hle) hnames hkeys
      (fun h => (hl h).trans_le hle) (fun m h => (hm m h).mono (by omega)) hpolicy
  | body hf => exact .body (hf.mono hle)
  | condition hl ht => exact .condition (hl.trans_le hle) (ht.mono (by omega))

/-- A statement that is read back under a nesting limit. -/
def Statement.IsReadable (limit : Nat) : Statement → Prop
  | .header kind value =>
    0 < limit ∧ Readable (limit - 1) 1 value ∧ Reader.headerValueFits kind value = true
  | .assign _ value _ => 0 < limit ∧ Declared (limit - 1) value

/-- What must differ between two statements: the header, or the kind and the name that is
declared. -/
def Statement.subject : Statement → Header ⊕ (Option DeclKind × String)
  | .header kind _ => .inl kind
  | .assign name value _ => .inr (value.declKind?, name)

/-- A template that is read back under a nesting limit. -/
structure Template.IsReadable (limit : Nat) (t : Template) : Prop where
  statements : ∀ st ∈ t.statements, st.IsReadable limit
  nodup : (t.statements.map Statement.subject).Nodup

end StackScript
