import Mathlib.Data.List.Forall2
import StackScript.Proofs.Grammar.Reads
import StackScript.Proofs.Grammar.Readable
import StackScript.Proofs.Number.Digits

/-!
# Where expressions start and end

An expression starts with a word of some kinds, and ends before a token that does not continue it.
The latter depends on its place: an operand of `&&` may be followed by `||`, but not by `==`.

## Main definitions

* `Reader.Stops`: the tokens that an expression in a place may be followed by.
* `Reader.Starts`: the words that an expression starts with.
* `Reader.ruleAt`: the rule for expressions in a place.
* `Reader.ReadsInside`: the words of an expression one level further in.
* `Reader.IsLiteral`, `Reader.nameWords`: the words of literals and names.
-/

namespace StackScript.Reader

variable {line limit levels place other : Nat} {ws : List Word} {next : Token → Prop}

/-! ### What follows an expression -/

/-- The kinds of tokens that continue an expression in a place. -/
def continuing (place : Nat) : List TokenKind :=
  [.dot, .lbracket, .lparen] ++ (if place ≤ 3 then [.doubleEquals, .notEquals] else []) ++
    (if place ≤ 2 then [.doubleAmpersand] else []) ++ if place ≤ 1 then [.doublePipe] else []

/-- A token that an expression in a place may be followed by. -/
def Stops (place : Nat) (t : Token) : Prop := t.kind ∉ continuing place

theorem Stops.mono {t : Token} (h : Stops place t) (hle : place ≤ other) : Stops other t := by
  intro hmem
  refine h ?_
  simp only [continuing, List.mem_append] at hmem ⊢
  rcases hmem with ((hmem | hmem) | hmem) | hmem
  · exact .inl (.inl (.inl hmem))
  · split_ifs at hmem with hother
    · exact .inl (.inl (.inr (by rwa [if_pos (hle.trans hother)])))
    · cases hmem
  · split_ifs at hmem with hother
    · exact .inl (.inr (by rwa [if_pos (hle.trans hother)]))
    · cases hmem
  · split_ifs at hmem with hother
    · exact .inr (by rwa [if_pos (hle.trans hother)])
    · cases hmem

/-- Nothing continues after a token that closes a bracket or separates things, or at the start of
another statement. -/
theorem stops_of_mem {t : Token}
    (h : t.kind ∈ [.comma, .rparen, .rbracket, .rbrace, .identifier, .string, .eof]) :
    Stops place t := by
  refine Stops.mono ?_ (Nat.zero_le _)
  have hall : ∀ kind ∈ [TokenKind.comma, .rparen, .rbracket, .rbrace, .identifier, .string, .eof],
      kind ∉ continuing 0 := by decide
  exact hall _ h

/-! ### How an expression starts -/

/-- The kinds of words that an expression starts with. -/
def startKinds : List TokenKind :=
  [.identifier, .string, .number, .lbrace, .lbracket, .lparen, .bang]

/-- Words that start as an expression does. -/
def Starts (ws : List Word) : Prop := ∃ w more, ws = w :: more ∧ w.kind ∈ startKinds

theorem Starts.append (h : Starts ws) (ws' : List Word) : Starts (ws ++ ws') := by
  obtain ⟨w, more, rfl, hw⟩ := h
  exact ⟨w, more ++ ws', rfl, hw⟩

theorem Starts.ne_nil (h : Starts ws) : ws ≠ [] := by
  obtain ⟨w, more, rfl, -⟩ := h
  simp

/-! ### Rules -/

/-- The rule for expressions in a place, with a number of nesting levels left. -/
def ruleAt (limit levels : Nat) : (place : Nat) → Reader Expr
  | 0 | 1 => disjunction (unaryAt limit levels)
  | 2 => conjunction (unaryAt limit levels)
  | 3 => comparison (unaryAt limit levels)
  | _ => unaryAt limit levels

/-- The rule for the operand of `!`, with a number of nesting levels left. -/
def negatedAt (limit : Nat) : (levels : Nat) → Reader Expr
  | 0 => tooDeep limit
  | levels + 1 => within (unaryAt limit levels)

theorem unaryAt_eq (limit levels : Nat) :
    unaryAt limit levels = unary (negatedAt limit levels) (expressionAt limit levels) := by
  cases levels <;> rfl

theorem moreArguments_eq (expr : Reader Expr) (bound : Nat) :
    moreArguments expr bound = operands .comma expr bound := by
  induction bound with
  | zero => rfl
  | succ bound ih => rw [moreArguments, operands, ih]

/-- The words of an expression one level further in. -/
structure ReadsInside (line limit levels : Nat) (ws : List Word) (e : Expr) : Prop where
  reads : Reads line (expressionAt limit levels) (Stops 1) ws e
  starts : Starts ws

/-! ### Lists of words -/

theorem length_le_flatMap (separator : Word) (wss : List (List Word)) :
    wss.length ≤ (wss.flatMap (separator :: ·)).length := by
  induction wss with
  | nil => simp
  | cons ws wss ih =>
    rw [List.flatMap_cons, List.length_append, List.length_cons, List.length_cons]
    omega

theorem length_lt_of_joined {separator close : Word} {wss : List (List Word)} {n : Nat}
    (hne : ∀ ws ∈ wss, ws ≠ []) (h : (Word.joined separator wss ++ [close]).length < n) :
    wss.length < n := by
  cases wss with
  | nil => exact Nat.zero_lt_of_lt h
  | cons ws wss =>
    have hflat := length_le_flatMap separator wss
    have hws := List.length_pos_iff.2 (hne ws (by simp))
    simp only [Word.joined, List.length_append, List.length_cons, List.length_nil] at h ⊢
    omega

/-! ### Literals and names -/

/-- A word that is a literal. -/
def IsLiteral (w : Word) : Prop :=
  w.kind ∈ [.string, .number] ∨ w.kind = .identifier ∧ (keywordLiteral? w.value).isSome = true

theorem isPseudo_eq_false_of_isWord {x : String} (h : isWord x.toList = true) :
    Expr.isPseudo x = false := by
  rw [Bool.eq_false_iff]
  intro hpseudo
  have hmem : ':' ∈ x.toList := (List.isPrefixOf_iff_prefix.1 hpseudo).subset (by decide)
  simp only [isWord, Bool.and_eq_true, List.all_eq_true] at h
  exact absurd (h.1 ':' hmem) (by decide)

/-- The words of a name or a pseudo parameter. -/
def nameWords (x : String) : List Word :=
  if Expr.isPseudo x then [.ident Expr.pseudoBase, .sign .dot, .ident (Expr.pseudoTail x)]
  else [.ident x]

theorem isName_pseudoBase : IsName Expr.pseudoBase := by
  constructor <;> decide

end StackScript.Reader
