import StackScript.Proofs.Grammar.Accepted

/-!
# Operators and parentheses

A tree of operators can be spelled in many ways: parentheses may stand around every part of it, and
they have to where a part binds looser than its place allows. Each of these spellings is read as the
same expression, in which operators are grouped as in the tree and parentheses leave no trace.

## Main definitions

* `OperatorTree`: expressions that are put together by operators.
* `OperatorTree.Spelled`: the spellings of a tree in a place, with their nesting.

## Main results

* `OperatorTree.Spelled.derivesIn`: the grammar derives the expression of a tree from its spellings.
* `expression_of_spelled`: the rule for expressions reads it from them.
-/

namespace StackScript

open Grammar Reader

/-- An expression that is put together by operators. Conjunctions and disjunctions have two parts or
more. -/
inductive OperatorTree where
  | atom (e : Expr)
  | not (operand : OperatorTree)
  | equal (left right : OperatorTree)
  | unequal (left right : OperatorTree)
  | all (first second : OperatorTree) (more : List OperatorTree)
  | any (first second : OperatorTree) (more : List OperatorTree)

namespace OperatorTree

mutual

/-- The expression of a tree. -/
def toExpr : OperatorTree → Expr
  | atom e => e
  | not operand => .call "Not" [toExpr operand] (some .not)
  | equal left right => .call "Equals" [toExpr left, toExpr right] (some .eq)
  | unequal left right =>
    .call "Not" [.call "Equals" [toExpr left, toExpr right] none] (some .ne)
  | all first second more => .call "And" (toExpr first :: toExpr second :: toExprs more) (some .and)
  | any first second more => .call "Or" (toExpr first :: toExpr second :: toExprs more) (some .or)

/-- The expressions of trees. -/
def toExprs : List OperatorTree → List Expr
  | [] => []
  | tree :: more => toExpr tree :: toExprs more

end

theorem toExprs_eq_map (trees : List OperatorTree) : toExprs trees = trees.map toExpr := by
  induction trees with
  | nil => rfl
  | cons tree more ih => rw [toExprs, ih, List.map_cons]

/-- The spellings of a tree in a place that nest no deeper than a number of levels. Places are
numbered by how tight they bind: whole expressions, parts of `||`, parts of `&&`, and operands of
comparisons and of `!`. Parentheses may stand around every tree, and lift it to all places. -/
inductive Spelled : (levels place : Nat) → OperatorTree → List Token → Prop
  | atom {levels place : Nat} {e : Expr} {ts : List Token} (h : DerivesIn levels .suffixed ts e) :
      Spelled levels place (.atom e) ts
  | grouped {levels inner place : Nat} {tree : OperatorTree} {ts : List Token}
      {opening closing : Token} (ho : opening.kind = .lparen) (hi : inner < levels)
      (h : Spelled inner 1 tree ts) (hc : closing.kind = .rparen) :
      Spelled levels place tree (opening :: (ts ++ [closing]))
  | not {levels inner place : Nat} {operand : OperatorTree} {bang : Token} {ts : List Token}
      (hp : place ≤ 4) (hb : bang.kind = .bang) (hi : inner < levels)
      (h : Spelled inner 4 operand ts) : Spelled levels place (.not operand) (bang :: ts)
  | equal {levels place : Nat} {left right : OperatorTree} {sign : Token} {ts ts' : List Token}
      (hp : place ≤ 3) (hl : Spelled levels 4 left ts) (hs : sign.kind = .doubleEquals)
      (hr : Spelled levels 4 right ts') :
      Spelled levels place (.equal left right) (ts ++ sign :: ts')
  | unequal {levels place : Nat} {left right : OperatorTree} {sign : Token} {ts ts' : List Token}
      (hp : place ≤ 3) (hl : Spelled levels 4 left ts) (hs : sign.kind = .notEquals)
      (hr : Spelled levels 4 right ts') :
      Spelled levels place (.unequal left right) (ts ++ sign :: ts')
  | all {levels place : Nat} {first second : OperatorTree} {more : List OperatorTree}
      {parts : List (List Token × OperatorTree)} {ts : List Token} (hp : place ≤ 2)
      (ht : parts.map Prod.snd = first :: second :: more)
      (hs : Separated .doubleAmpersand (parts.map Prod.fst) ts)
      (h : ∀ p ∈ parts, Spelled levels 3 p.2 p.1) : Spelled levels place (.all first second more) ts
  | any {levels place : Nat} {first second : OperatorTree} {more : List OperatorTree}
      {parts : List (List Token × OperatorTree)} {ts : List Token} (hp : place ≤ 1)
      (ht : parts.map Prod.snd = first :: second :: more)
      (hs : Separated .doublePipe (parts.map Prod.fst) ts)
      (h : ∀ p ∈ parts, Spelled levels 2 p.2 p.1) : Spelled levels place (.any first second more) ts

section Joined

variable {kind : TokenKind} {ts : List Token} {first second : OperatorTree}
  {more : List OperatorTree} {parts : List (List Token × OperatorTree)}

/-- The expressions of the parts of a conjunction or a disjunction. -/
private theorem map_toExpr (ht : parts.map Prod.snd = first :: second :: more) :
    (parts.map (Prod.map id toExpr)).map Prod.snd =
      first.toExpr :: second.toExpr :: toExprs more := by
  rw [toExprs_eq_map, ← List.map_cons, ← List.map_cons, ← ht, List.map_map, List.map_map]
  rfl

private theorem separated_toExpr (hs : Separated kind (parts.map Prod.fst) ts) :
    Separated kind ((parts.map (Prod.map id toExpr)).map Prod.fst) ts := by
  rw [List.map_map]
  exact hs

private theorem two_le_length (ht : parts.map Prod.snd = first :: second :: more) :
    2 ≤ (parts.map (Prod.map id toExpr)).length := by
  have hlength := congrArg List.length ht
  rw [List.length_map, List.length_cons, List.length_cons] at hlength
  rw [List.length_map]
  omega

end Joined

/-- The grammar derives the expression of a tree from its spellings. -/
theorem Spelled.derivesIn {levels place : Nat} {tree : OperatorTree} {ts : List Token}
    (h : Spelled levels place tree ts) : DerivesIn levels (phraseAt place) ts tree.toExpr := by
  induction h with
  | atom h =>
    rw [toExpr]
    exact derivesIn_of_suffixed _ h
  | grouped ho hi _ hc ih => exact derivesIn_of_suffixed _ (.plain (.grouped ho hi ih hc))
  | not hp hb hi _ ih =>
    rw [toExpr]
    exact derivesIn_of_le hp (.negation hb hi ih)
  | equal hp _ hs _ ihl ihr =>
    rw [toExpr]
    exact derivesIn_of_le hp (.equality ihl hs ihr)
  | unequal hp _ hs _ ihl ihr =>
    rw [toExpr]
    exact derivesIn_of_le hp (.inequality ihl hs ihr)
  | all hp ht hs _ ih =>
    rw [toExpr, ← map_toExpr ht]
    exact derivesIn_of_le hp (.conjunction (two_le_length ht) (separated_toExpr hs)
      (List.forall_mem_map.2 ih))
  | any hp ht hs _ ih =>
    rw [toExpr, ← map_toExpr ht]
    exact derivesIn_of_le hp (.disjunction (two_le_length ht) (separated_toExpr hs)
      (List.forall_mem_map.2 ih))

end OperatorTree

/-- **Operators are read as they are grouped.** Take any spelling of a tree of operators, with any
parentheses around its parts, and after it a token that does not continue an expression. If the
spelling does not nest deeper than the limit allows, the rule for expressions reads the expression
of the tree from it and stops at that token. -/
theorem expression_of_spelled {limit levels depth : Nat} {tree : OperatorTree} {ts : List Token}
    {previous next : Token} {rest : TokenStream} (h : tree.Spelled levels 1 ts)
    (hnext : Stops 1 next) (hdepth : depth + levels < limit) :
    (expression limit).run.run (.facing previous ts next rest depth) =
      (.ok tree.toExpr, .facing (ts.getLastD previous) [] next rest depth) := by
  obtain ⟨more, hmore⟩ : ∃ more, limit - depth = more + 1 :=
    Nat.exists_eq_add_of_le' (by omega)
  have hlevels : levels ≤ more := by omega
  have htakes : Takes (expressionAt limit (more + 1)) (Stops 1) ts tree.toExpr :=
    Takes.within (takesPhrase_of_derivesIn h.derivesIn limit hlevels)
  unfold expression atLevel
  rw [run_bind_ok (run_get _)]
  change (expressionAt limit (limit - depth)).run.run _ = _
  rw [hmore]
  exact htakes.facing previous next rest depth hnext

private def operatorToken (kind : TokenKind) (value : String) : Token := ⟨kind, value, 1, 1⟩

private def operandTokens (value : String) : List Token := [operatorToken .identifier value]

private def groupedTokens (ts : List Token) : List Token :=
  operatorToken .lparen "(" :: (ts ++ [operatorToken .rparen ")"])

/-- `(a && b) && !((c == d))`, which is not the conjunction of three parts. -/
private def nestedTokens : List Token :=
  groupedTokens (operandTokens "a" ++ operatorToken .doubleAmpersand "&&" :: operandTokens "b") ++
    operatorToken .doubleAmpersand "&&" :: operatorToken .bang "!" ::
      groupedTokens (groupedTokens
        (operandTokens "c" ++ operatorToken .doubleEquals "==" :: operandTokens "d"))

private def closingToken : Token := operatorToken .rbrace (String.singleton '}')

private def nestedTree : OperatorTree :=
  .all (.all (.atom (.name "a")) (.atom (.name "b")) [])
    (.not (.equal (.atom (.name "c")) (.atom (.name "d")))) []

private theorem spelled_operandTokens {levels place : Nat} {name : String}
    (hname : name ∈ ["a", "b", "c", "d"]) :
    OperatorTree.Spelled levels place (.atom (.name name)) (operandTokens name) := by
  have hn : IsName name := by
    simp only [List.mem_cons, List.not_mem_nil, or_false] at hname
    rcases hname with rfl | rfl | rfl | rfl <;> constructor <;> decide
  exact .atom (.plain (.name (t := operatorToken .identifier name) rfl hn))

private theorem spelled_all_pair {levels place : Nat} {first second : OperatorTree}
    {sign : Token} {ts ts' : List Token} (hp : place ≤ 2) (h : first.Spelled levels 3 ts)
    (hs : sign.kind = .doubleAmpersand) (h' : second.Spelled levels 3 ts') :
    (OperatorTree.all first second []).Spelled levels place (ts ++ sign :: ts') := by
  have hparts : ∀ p ∈ [(ts, first), (ts', second)], p.2.Spelled levels 3 p.1 :=
    List.forall_mem_cons.2 ⟨h, List.forall_mem_singleton.2 h'⟩
  have hsigns : Separated .doubleAmpersand ([(ts, first), (ts', second)].map Prod.fst)
      (ts ++ sign :: ts') := .cons ts hs (.single ts')
  exact .all hp rfl hsigns hparts

private theorem spelled_nestedTokens : nestedTree.Spelled 3 1 nestedTokens := by
  refine spelled_all_pair (by decide) (.grouped rfl (by decide : 0 < 3) ?_ rfl) rfl
    (.not (by decide) rfl (by decide : 2 < 3) (.grouped rfl (by decide : 1 < 2)
      (.grouped rfl (by decide : 0 < 1) ?_ rfl) rfl))
  · exact spelled_all_pair (by decide) (spelled_operandTokens (by decide)) rfl
      (spelled_operandTokens (by decide))
  · exact .equal (by decide) (spelled_operandTokens (by decide)) rfl
      (spelled_operandTokens (by decide))

theorem expression_of_spelled_nestedTokens :
    nestedTree.Spelled 3 1 nestedTokens ∧ Stops 1 closingToken ∧ 0 + 3 < 4 ∧
      (expression 4).run.run (.facing (operatorToken .colon ":") nestedTokens closingToken
          ⟨[], .ok (operatorToken .eof "")⟩ 0) =
        (.ok nestedTree.toExpr, .facing (operatorToken .rparen ")") [] closingToken
          ⟨[], .ok (operatorToken .eof "")⟩ 0) := by
  have hstops : Stops 1 closingToken := by
    unfold Stops
    decide
  exact ⟨spelled_nestedTokens, hstops, by decide,
    expression_of_spelled spelled_nestedTokens hstops (by decide)⟩

end StackScript
