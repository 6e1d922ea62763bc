import StackScript.Yaml.Property

/-!
# The tokens of a YAML text

Tokens are found from left to right. Outside brackets the columns of lines open and close blocks.
A key of a mapping need not be marked: every token that could start one is remembered, and when a
colon follows on the same line within a bounded distance, the mark is put in front of it. In a
column where a block mapping goes on, a token has to turn out to be a key. Until it is clear whether
a token is a key, neither it nor anything after it counts as read, so a fault that comes before that
hides them.

## Main definitions

* `Yaml.TokenState`: what is known before the next token.
* `Yaml.TokenState.step`: one more token, with the ends and starts of blocks before it.
* `Yaml.TokenState.settled`: the tokens that no longer depend on what follows.
* `Yaml.tokens`: all tokens of a text.
-/

namespace StackScript.Yaml

/-- A token that may turn out to be a key: how many tokens are before it, whether it has to be a
key, and its place. -/
structure PendingKey where
  position : Nat
  required : Bool
  index : Nat
  line : Nat
  column : Nat

/-- The state before the next token: the brackets that are open, the columns of open blocks from the
inside out, whether a key may start here, the pending key of each bracket level, and the tokens so
far, backwards, with their number. -/
structure TokenState where
  cursor : Cursor
  flowLevel : Nat := 0
  blocks : List Nat := []
  keyAllowed : Bool := true
  pending : List (Nat × PendingKey) := []
  tokens : List Token := []
  count : Nat := 0

/-- A key may be at most this many characters before its colon. -/
def maxKeyLength : Nat := 1024

namespace TokenState

/-- Adds a token. -/
def emit (s : TokenState) (token : Token) : TokenState :=
  { s with tokens := token :: s.tokens, count := s.count + 1 }

/-- Puts tokens in front of the token with the given position. -/
def insert (s : TokenState) (position : Nat) (new : List Token) : TokenState :=
  let later := s.count - position
  { s with
    tokens := s.tokens.take later ++ new.reverse ++ s.tokens.drop later
    count := s.count + new.length }

/-- Adds a token of one character. -/
def emitMark (s : TokenState) (token : Token) : TokenState :=
  { s.emit token with cursor := s.cursor.advance }

/-! ### Blocks -/

/-- Closes the blocks whose columns satisfy `p`, from the inside out. -/
def closeBlocks (s : TokenState) (p : Nat → Bool) : TokenState :=
  if s.flowLevel = 0 then
    let closed := (s.blocks.takeWhile p).length
    { s with
      blocks := s.blocks.drop closed
      tokens := List.replicate closed .blockEnd ++ s.tokens
      count := s.count + closed }
  else s

/-- Whether a block in the given column would be inside the open ones. -/
def isInner (s : TokenState) (column : Nat) : Bool := s.blocks.head?.all (· < column)

/-- The least column of lines inside the innermost block. -/
def innerColumn (s : TokenState) : Nat :=
  match s.blocks.head? with
  | some column => column + 1
  | none => 0

/-- Opens a block at the cursor, outside brackets, if it is inside the open ones. -/
def openBlock (s : TokenState) (start : Token) : TokenState :=
  if s.flowLevel = 0 && s.isInner s.cursor.column then
    { s.emit start with blocks := s.cursor.column :: s.blocks }
  else s

/-! ### Keys -/

/-- The pending key of the current bracket level. -/
def pendingKey? (s : TokenState) : Option PendingKey := s.pending.lookup s.flowLevel

/-- Forgets the pending key of the current bracket level. -/
def forgetKey (s : TokenState) : TokenState :=
  { s with pending := s.pending.filter fun (level, _) => level != s.flowLevel }

/-- Gives up the pending key of the current bracket level, which must not be a required one. -/
def dropKey (s : TokenState) : Except Fault TokenState :=
  match s.pendingKey? with
  | some key => if key.required then .error .malformed else .ok s.forgetKey
  | none => .ok s

/-- Whether a pending key is too far away to be one. -/
def isStale (s : TokenState) (key : PendingKey) : Bool :=
  key.line != s.cursor.line || decide (maxKeyLength < s.cursor.index - key.index)

/-- Gives up the pending keys that are too far away. -/
def dropStaleKeys (s : TokenState) : Except Fault TokenState :=
  if s.pending.any fun (_, key) => s.isStale key && key.required then .error .malformed
  else .ok { s with pending := s.pending.filter fun (_, key) => !s.isStale key }

/-- Remembers that the token at the cursor may be a key. -/
def saveKey (s : TokenState) : Except Fault TokenState := do
  if s.keyAllowed then
    let s ← s.dropKey
    let required := s.flowLevel == 0 && s.blocks.head? == some s.cursor.column
    let key := ⟨s.count, required, s.cursor.index, s.cursor.line, s.cursor.column⟩
    return { s with pending := (s.flowLevel, key) :: s.pending }
  else return s

/-! ### Tokens -/

/-- Blanks, comments and line breaks before the next token. A key may start after a line break
outside brackets. -/
def skipLayout (s : TokenState) : (fuel : Nat) → TokenState
  | 0 => s
  | fuel + 1 =>
    let cursor := s.cursor.skipSpaces.skipComment
    if cursor.head?.any isBreak then
      { s with
        cursor := cursor.lineBreak.2
        keyAllowed := s.keyAllowed || s.flowLevel == 0 }.skipLayout fuel
    else { s with cursor }

/-- A byte order mark at the start of the text. -/
def skipMark (s : TokenState) : TokenState :=
  if s.cursor.index = 0 && s.cursor.head? == some byteOrderMark then
    { s with cursor := s.cursor.advance }
  else s

/-- A token outside all blocks. -/
def outermost (s : TokenState) : Except Fault TokenState := do
  let s ← (s.closeBlocks fun _ => true).dropKey
  return { s with keyAllowed := false }

/-- A mark of three characters between documents. -/
def documentMark (s : TokenState) (token : Token) : Except Fault TokenState := do
  let s ← s.outermost
  return { s.emit token with cursor := s.cursor.move 3 }

/-- A directive. -/
def directive (s : TokenState) : Except Fault TokenState := do
  let s ← s.outermost
  let (token, cursor) ← directiveToken s.cursor.advance
  return { s.emit token with cursor }

/-- An opening bracket. -/
def openFlow (s : TokenState) (token : Token) : Except Fault TokenState := do
  let s ← s.saveKey
  return { s.emitMark token with flowLevel := s.flowLevel + 1, keyAllowed := true }

/-- A closing bracket. Outside brackets there is nothing to close. -/
def closeFlow (s : TokenState) (token : Token) : Except Fault TokenState := do
  let s ← s.dropKey
  match s.flowLevel with
  | 0 => .error .malformed
  | level + 1 => return { s.emitMark token with flowLevel := level, keyAllowed := false }

/-- A comma between brackets. -/
def flowEntry (s : TokenState) : Except Fault TokenState := do
  let s ← s.dropKey
  return { s.emitMark .flowEntry with keyAllowed := true }

/-- The hyphen of an item. -/
def blockEntry (s : TokenState) : Except Fault TokenState := do
  if s.flowLevel = 0 && !s.keyAllowed then .error .malformed
  let s ← (s.openBlock .blockSequenceStart).dropKey
  return { s.emitMark .blockEntry with keyAllowed := true }

/-- The question mark of a key. -/
def markedKey (s : TokenState) : Except Fault TokenState := do
  if s.flowLevel = 0 && !s.keyAllowed then .error .malformed
  let s ← (s.openBlock .blockMappingStart).dropKey
  return { s.emitMark .key with keyAllowed := s.flowLevel == 0 }

/-- The colon of a value. If a key is pending, it gets its mark, and a block starts in its column
where that is inside the open ones. -/
def mappingValue (s : TokenState) : Except Fault TokenState := do
  match s.pendingKey? with
  | some key =>
    let s := s.forgetKey
    let s :=
      if s.flowLevel = 0 && s.isInner key.column then
        { s.insert key.position [.blockMappingStart, .key] with blocks := key.column :: s.blocks }
      else s.insert key.position [.key]
    return { s.emitMark .value with keyAllowed := false }
  | none =>
    if s.flowLevel = 0 && !s.keyAllowed then .error .malformed
    let s ← (s.openBlock .blockMappingStart).dropKey
    return { s.emitMark .value with keyAllowed := s.flowLevel == 0 }

/-- An alias or an anchor. -/
def named (s : TokenState) (token : String → Token) : Except Fault TokenState := do
  let s ← s.saveKey
  let (name, cursor) ← anchorName s.cursor.advance
  return { s.emit (token name) with cursor, keyAllowed := false }

/-- A tag. -/
def tag (s : TokenState) : Except Fault TokenState := do
  let s ← s.saveKey
  let (token, cursor) ← tagToken s.cursor
  return { s.emit token with cursor, keyAllowed := false }

/-- A scalar between quotes. -/
def quoted (s : TokenState) (double : Bool) : Except Fault TokenState := do
  let s ← s.saveKey
  let (text, cursor) ← quotedText double s.cursor.advance
  return { s.emit (.scalar text false) with cursor, keyAllowed := false }

/-- A literal or folded block. -/
def block (s : TokenState) (fold : Bool) : Except Fault TokenState := do
  let s ← s.dropKey
  let (text, cursor) ← blockText fold (max 1 s.innerColumn) s.cursor.advance
  return { s.emit (.scalar text false) with cursor, keyAllowed := true }

/-- A plain scalar. -/
def plain (s : TokenState) : Except Fault TokenState := do
  let s ← s.saveKey
  let (text, cursor, broken) := plainText (s.flowLevel != 0) s.innerColumn s.cursor
  return { s.emit (.scalar text true) with cursor, keyAllowed := broken }

/-- The characters that cannot start a plain scalar, unless a hyphen, a question mark or a colon is
directly followed by more. -/
def indicators : List Char := "-?:,[]{}#&*!|>'\"%@\x60".toList

/-- Whether a plain scalar starts with the given character. -/
def startsPlain (s : TokenState) (c : Char) (next : Option Char) : Bool :=
  !(isWhite c || isBreak c || indicators.contains c) ||
    (!endsWord next && (c == '-' || (s.flowLevel == 0 && (c == '?' || c == ':'))))

/-- The token that starts with the given character, after the layout before it. -/
def token (s : TokenState) (c : Char) (next : Option Char) : Except Fault TokenState :=
  let inFlow := s.flowLevel != 0
  let lineStart := s.cursor.column == 0
  if c == '%' && lineStart then s.directive
  else if lineStart && s.cursor.atTriple '-' then s.documentMark .documentStart
  else if lineStart && s.cursor.atTriple '.' then s.documentMark .documentEnd
  else if c == '[' then s.openFlow .flowSequenceStart
  else if c == '{' then s.openFlow .flowMappingStart
  else if c == ']' then s.closeFlow .flowSequenceEnd
  else if c == '}' then s.closeFlow .flowMappingEnd
  else if c == ',' then s.flowEntry
  else if c == '-' && endsWord next then s.blockEntry
  else if c == '?' && (inFlow || endsWord next) then s.markedKey
  else if c == ':' && (inFlow || endsWord next) then s.mappingValue
  else if c == '*' then s.named .alias
  else if c == '&' then s.named .anchor
  else if c == '!' then s.tag
  else if c == '|' && !inFlow then s.block false
  else if c == '>' && !inFlow then s.block true
  else if c == '\'' then s.quoted false
  else if c == '"' then s.quoted true
  else if s.startsPlain c next then s.plain
  else .error .malformed

/-- One more token with the layout and the ends of blocks before it, and whether it is not the
last. -/
def step (s : TokenState) : Except Fault (TokenState × Bool) := do
  let s ← (s.skipMark.skipLayout (s.cursor.rest.length + 1)).dropStaleKeys
  let s := s.closeBlocks (s.cursor.column < ·)
  match s.cursor.rest with
  | [] => return ((← s.outermost).emit .streamEnd, false)
  | c :: rest => return (← s.token c rest.head?, true)

/-- The tokens before the first one that may still turn out to be a key. -/
def settled (s : TokenState) : List Token :=
  let waiting := s.pending.filter fun (_, key) => !s.isStale key
  s.tokens.reverse.take (waiting.foldl (fun n (_, key) => min n key.position) s.count)

/-- The tokens from a state on, and the fault that ends them if there is one. -/
def run : (fuel : Nat) → TokenState → List Token × Option Fault
  | 0, s => (s.settled, some .malformed)
  | fuel + 1, s =>
    match s.step with
    | .error fault => (s.settled, some fault)
    | .ok (next, true) => run fuel next
    | .ok (last, false) => (last.tokens.reverse, none)

end TokenState

/-- The tokens of a text, and the fault that ends them if there is one. Before a fault only the
settled tokens are given. -/
def tokens (text : List Char) : List Token × Option Fault :=
  if text.all isAllowed then TokenState.run (text.length + 1) { cursor := { rest := text } }
  else ([], some .malformed)

end StackScript.Yaml
