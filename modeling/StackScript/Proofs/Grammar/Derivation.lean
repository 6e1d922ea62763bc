import StackScript.Proofs.Grammar.Readable
import StackScript.Proofs.Token.Lexical

/-!
# The grammar of scripts

The grammar says which lists of tokens spell an expression, a statement or a template, without
saying how they are read. Its rules are those of the language reference, from the loosest operator
to the primary expressions, together with what the language asks beyond its grammar: keys,
modifiers and declarations do not come twice, a modifier stands on the line that its resource or the
modifier before it ends on, and an attribute of the base of pseudo parameters is a pseudo parameter.

## Main definitions

* `Grammar.Separated`, `Grammar.Listed`: lists of tokens with signs between them.
* `Grammar.Derives`: the tokens of expressions.
* `Grammar.DerivesStatement`, `Grammar.DerivesTemplate`: the tokens of statements and templates.
-/

namespace StackScript

/-- Whether a path of attributes may start at an expression: it neither continues a path nor names
a pseudo parameter. -/
def Expr.startsPath : Expr → Bool
  | .name x => x != pseudoBase && !isPseudo x
  | .member .. => false
  | _ => true

namespace Grammar

/-! ### Lists of things -/

/-- Lists of tokens, at least one, with a sign of a kind between them. -/
inductive Separated (kind : TokenKind) : List (List Token) → List Token → Prop
  | single (ts : List Token) : Separated kind [ts] ts
  | cons (ts : List Token) {sign : Token} {tss : List (List Token)} {rest : List Token}
      (hs : sign.kind = kind) (h : Separated kind tss rest) :
      Separated kind (ts :: tss) (ts ++ sign :: rest)

/-- Lists of tokens with commas between them; there may be none, and a comma may follow the last
one. -/
inductive Listed : List (List Token) → List Token → Prop
  | nil : Listed [] []
  | plain {tss : List (List Token)} {ts : List Token} (h : Separated .comma tss ts) : Listed tss ts
  | trailing {tss : List (List Token)} {ts : List Token} {comma : Token}
      (h : Separated .comma tss ts) (hc : comma.kind = .comma) : Listed tss (ts ++ [comma])

theorem Listed.cons {tss : List (List Token)} {ts rest : List Token} {comma : Token}
    (hc : comma.kind = .comma) (h : Listed tss rest) :
    Listed (ts :: tss) (ts ++ comma :: rest) := by
  cases h with
  | nil => exact .trailing (.single ts) hc
  | plain h => exact .plain (.cons ts hc h)
  | trailing h hc' =>
    rw [← List.cons_append, ← List.append_assoc]
    exact .trailing (.cons ts hc h) hc'

/-- A property of an object: a key, a colon, and the tokens of a value. -/
structure Field where
  key : Token
  colon : Token
  inside : List Token
  value : Expr

/-- The tokens of a property. -/
def Field.tokens (f : Field) : List Token := f.key :: f.colon :: f.inside

/-- The property itself. -/
def Field.field (f : Field) : String × Expr := (f.key.value, f.value)

/-- A modifier of a resource: its name, and the tokens of a value in parentheses. -/
structure Modifier where
  name : Token
  opening : Token
  inside : List Token
  closing : Token
  value : Expr

/-- The tokens of a modifier. -/
def Modifier.tokens (m : Modifier) : List Token :=
  m.name :: m.opening :: (m.inside ++ [m.closing])

/-- The modifier itself. -/
def Modifier.field (m : Modifier) : String × Expr := (m.name.value, m.value)

/-- Modifiers that start on the line that a token ends, each on that of the one before it. -/
def FollowOn : Token → List Modifier → Prop
  | _, [] => True
  | previous, m :: ms => m.name.line = previous.line ∧ FollowOn m.closing ms

/-- The tokens of the type of a resource. -/
inductive DerivesType : List Token → String → Prop
  | segments {segments ts : List Token} (hk : ∀ t ∈ segments, t.kind = .identifier)
      (hs : Separated .doubleColon (segments.map ([·])) ts) :
      DerivesType ts ("::".intercalate (segments.map Token.value))
  | string {t : Token} (hk : t.kind = .string) : DerivesType [t] t.value

/-! ### Expressions -/

/-- The kinds of expressions, from the loosest to the tightest. -/
inductive Phrase where
  | disjunction
  | conjunction
  | comparison
  | unary
  | suffixed
  | primary
  | object

/-- The tokens of an expression. -/
inductive Derives : Phrase → List Token → Expr → Prop
  | disjunct {ts : List Token} {e : Expr} (h : Derives .conjunction ts e) :
      Derives .disjunction ts e
  | disjunction {parts : List (List Token × Expr)} {ts : List Token} (hn : 2 ≤ parts.length)
      (hs : Separated .doublePipe (parts.map Prod.fst) ts)
      (h : ∀ p ∈ parts, Derives .conjunction p.1 p.2) :
      Derives .disjunction ts (.call "Or" (parts.map Prod.snd) (some .or))
  | conjunct {ts : List Token} {e : Expr} (h : Derives .comparison ts e) :
      Derives .conjunction ts e
  | conjunction {parts : List (List Token × Expr)} {ts : List Token} (hn : 2 ≤ parts.length)
      (hs : Separated .doubleAmpersand (parts.map Prod.fst) ts)
      (h : ∀ p ∈ parts, Derives .comparison p.1 p.2) :
      Derives .conjunction ts (.call "And" (parts.map Prod.snd) (some .and))
  | side {ts : List Token} {e : Expr} (h : Derives .unary ts e) : Derives .comparison ts e
  | equality {ts ts' : List Token} {left right : Expr} {sign : Token}
      (hl : Derives .unary ts left) (hs : sign.kind = .doubleEquals)
      (hr : Derives .unary ts' right) :
      Derives .comparison (ts ++ sign :: ts') (.call "Equals" [left, right] (some .eq))
  | inequality {ts ts' : List Token} {left right : Expr} {sign : Token}
      (hl : Derives .unary ts left) (hs : sign.kind = .notEquals)
      (hr : Derives .unary ts' right) :
      Derives .comparison (ts ++ sign :: ts')
        (.call "Not" [.call "Equals" [left, right] none] (some .ne))
  | negation {bang : Token} {ts : List Token} {e : Expr} (hb : bang.kind = .bang)
      (h : Derives .unary ts e) : Derives .unary (bang :: ts) (.call "Not" [e] (some .not))
  | operand {ts : List Token} {e : Expr} (h : Derives .suffixed ts e) : Derives .unary ts e
  | plain {ts : List Token} {e : Expr} (h : Derives .primary ts e) : Derives .suffixed ts e
  | pseudo {ts : List Token} {dot attr : Token}
      (h : Derives .suffixed ts (.name Expr.pseudoBase)) (hd : dot.kind = .dot)
      (ha : attr.kind = .identifier) :
      Derives .suffixed (ts ++ [dot, attr]) (.name (pseudoName attr.value))
  | member {ts : List Token} {base : Expr} {dot attr : Token}
      (h : Derives .suffixed ts base) (hb : base.startsPath = true) (hd : dot.kind = .dot)
      (ha : attr.kind = .identifier) :
      Derives .suffixed (ts ++ [dot, attr]) (.member base [attr.value])
  | further {ts : List Token} {base : Expr} {path : List String} {dot attr : Token}
      (h : Derives .suffixed ts (.member base path)) (hd : dot.kind = .dot)
      (ha : attr.kind = .identifier) :
      Derives .suffixed (ts ++ [dot, attr]) (.member base (path ++ [attr.value]))
  | bracket {ts path segments : List Token} {base : Expr} {opening closing : Token}
      (h : Derives .suffixed ts base) (ho : opening.kind = .lbracket)
      (hk : ∀ t ∈ segments, t.kind = .string) (hs : Separated .comma (segments.map ([·])) path)
      (hc : closing.kind = .rbracket) :
      Derives .suffixed (ts ++ opening :: (path ++ [closing]))
        (.bracket base (segments.map Token.value))
  | string {t : Token} (hk : t.kind = .string) : Derives .primary [t] (.literal (.str t.value))
  | number {t : Token} {s : Scalar} (hk : t.kind = .number) (hl : t.IsLexical)
      (hs : Reader.numberValue t.value.toList = some s) : Derives .primary [t] (.literal s)
  | word {t : Token} {s : Scalar} (hk : t.kind = .identifier)
      (hs : Reader.keywordLiteral? t.value = some s) : Derives .primary [t] (.literal s)
  | grouped {ts : List Token} {e : Expr} {opening closing : Token} (ho : opening.kind = .lparen)
      (h : Derives .disjunction ts e) (hc : closing.kind = .rparen) :
      Derives .primary (opening :: (ts ++ [closing])) e
  | objectLiteral {ts : List Token} {e : Expr} (h : Derives .object ts e) : Derives .primary ts e
  | array {parts : List (List Token × Expr)} {ts : List Token} {opening closing : Token}
      (ho : opening.kind = .lbracket) (hs : Listed (parts.map Prod.fst) ts)
      (h : ∀ p ∈ parts, Derives .disjunction p.1 p.2) (hc : closing.kind = .rbracket) :
      Derives .primary (opening :: (ts ++ [closing])) (.array (parts.map Prod.snd))
  | call {name : Token} {parts : List (List Token × Expr)} {ts : List Token}
      {opening closing : Token} (hk : name.kind = .identifier) (hn : IsName name.value)
      (ho : opening.kind = .lparen)
      (hs : parts = [] ∧ ts = [] ∨ Separated .comma (parts.map Prod.fst) ts)
      (h : ∀ p ∈ parts, Derives .disjunction p.1 p.2) (hc : closing.kind = .rparen)
      (href : name.value = "Ref" → ∃ s, parts.map Prod.snd = [.literal (.str s)]) :
      Derives .primary (name :: opening :: (ts ++ [closing]))
        (.call name.value (parts.map Prod.snd) none)
  | name {t : Token} (hk : t.kind = .identifier) (hn : IsName t.value) :
      Derives .primary [t] (.name t.value)
  | resource {keyword : Token} {type : String} {typeTokens : List Token}
      {properties : Option (List Token × List (String × Expr))} {modifiers : List Modifier}
      (hk : keyword.kind = .identifier) (hw : keyword.value = "Resource")
      (ht : DerivesType typeTokens type) (hne : type ≠ "")
      (hp : ∀ p ∈ properties, Derives .object p.1 (.object p.2))
      (hm : ∀ m ∈ modifiers, m.name.kind = .identifier ∧ m.opening.kind = .lparen ∧
        m.closing.kind = .rparen ∧ m.name.value ∈ modifierNames ∧ Reader.PolicyHolds m.field)
      (hi : ∀ m ∈ modifiers, Derives .disjunction m.inside m.value)
      (hd : (modifiers.map fun m => m.name.value).Nodup)
      (hline : FollowOn ((typeTokens ++ (properties.map Prod.fst).getD []).getLastD keyword)
        modifiers) :
      Derives .primary
        (keyword :: (typeTokens ++ ((properties.map Prod.fst).getD [] ++
          modifiers.flatMap Modifier.tokens)))
        (.resource type (properties.map Prod.snd) (modifiers.map Modifier.field))
  | condition {keyword : Token} {ts : List Token} {test : Expr} (hk : keyword.kind = .identifier)
      (hw : keyword.value = "Condition") (h : Derives .disjunction ts test) :
      Derives .primary (keyword :: ts) (.condition test)
  | body {keyword : Token} {kind : BodyKind} {ts : List Token} {fields : List (String × Expr)}
      (hk : keyword.kind = .identifier) (hw : keyword.value = kind.keyword)
      (h : Derives .object ts (.object fields)) :
      Derives .primary (keyword :: ts) (.body kind fields)
  | groupedBody {keyword opening closing : Token} {kind : BodyKind} {ts : List Token}
      {fields : List (String × Expr)} (hk : keyword.kind = .identifier)
      (hw : keyword.value = kind.keyword) (ho : opening.kind = .lparen)
      (h : Derives .object ts (.object fields)) (hc : closing.kind = .rparen) :
      Derives .primary (keyword :: opening :: (ts ++ [closing])) (.body kind fields)
  | object {fields : List Field} {ts : List Token} {opening closing : Token}
      (ho : opening.kind = .lbrace) (hs : Listed (fields.map Field.tokens) ts)
      (hf : ∀ f ∈ fields, f.key.kind ∈ [.identifier, .string, .number] ∧ f.colon.kind = .colon)
      (h : ∀ f ∈ fields, Derives .disjunction f.inside f.value)
      (hd : (fields.map fun f => f.key.value).Nodup) (hc : closing.kind = .rbrace) :
      Derives .object (opening :: (ts ++ [closing])) (.object (fields.map Field.field))

/-! ### Statements and templates -/

/-- The tokens of a statement. An assignment has the line of the name it assigns to. -/
inductive DerivesStatement : List Token → Statement → Prop
  | header {keyword : Token} {kind : Header} {ts : List Token} {value : Expr}
      (hk : keyword.kind = .identifier) (hw : keyword.value = kind.keyword)
      (h : Derives .disjunction ts value) (hv : Reader.headerValueFits kind value = true) :
      DerivesStatement (keyword :: ts) (.header kind value)
  | assign {name equals : Token} {ts : List Token} {value : Expr}
      (hk : name.kind = .identifier ∨ name.kind = .string) (he : equals.kind = .equals)
      (h : Derives .disjunction ts value) (hv : value.isDeclaration = true) :
      DerivesStatement (name :: equals :: ts) (.assign name.value value name.line)

/-- The tokens of a template: those of its statements in a row, which differ in what they
declare. -/
inductive DerivesTemplate : List Token → Template → Prop
  | mk {parts : List (List Token × Statement)} (h : ∀ p ∈ parts, DerivesStatement p.1 p.2)
      (hd : (parts.map fun p => p.2.subject).Nodup) :
      DerivesTemplate (parts.flatMap Prod.fst) ⟨parts.map Prod.snd⟩

end Grammar

end StackScript
