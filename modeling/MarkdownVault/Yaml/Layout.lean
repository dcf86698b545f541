import MarkdownVault.Yaml.Scalar

/-!
# Layout of a document

Outside brackets the columns of the tokens tell where collections start and end. That a value is
the key of a mapping shows only at the colon behind it, so the last place where a key may have
started is remembered for every open bracket.
-/

namespace MarkdownVault.Yaml

/-- A place where the key of a mapping may have started, after `position` tokens. A required key
must turn out to be one. -/
structure PendingKey where
  position : Nat
  required : Bool
  index : Nat
  line : Nat
  column : Nat
  deriving Repr

/-- The state between two tokens. The lists have their innermost entry first. -/
structure Layout where
  reading : Reading
  cursor : Cursor
  tokens : Array Token
  /-- The column of the open block collection, -1 outside all of them. -/
  indent : Int
  outerIndents : List Int
  /-- Whether a key may start here. -/
  keyAllowed : Bool
  pending : Option PendingKey
  /-- The pending keys around each open bracket. -/
  outerPending : List (Option PendingKey)

namespace Layout

def ofText (reading : Reading) (cs : List Char) : Layout :=
  { reading, cursor := .ofText cs, tokens := #[], indent := -1, outerIndents := [],
    keyAllowed := true, pending := none, outerPending := [] }

/-- Whether a bracket is open. -/
def inFlow (s : Layout) : Bool := !s.outerPending.isEmpty

def push (s : Layout) (t : Token) : Layout := { s with tokens := s.tokens.push t }

def column (s : Layout) : Int := s.cursor.column

/-- Whether a byte order mark may be passed here. -/
def atOrderMark (s : Layout) : Bool :=
  s.cursor.rest.head? == some '\uFEFF' &&
    match s.reading with
    | .strict => s.cursor.index == 0
    | .lenient => s.cursor.column == 0

/-- Passes blanks, comments and breaks; a key may start on a new line. -/
def skipToToken (fuel : Nat) (s : Layout) : Layout :=
  match fuel with
  | 0 => s
  | fuel + 1 =>
    let tabs := s.reading = .lenient ∧ (s.inFlow ∨ !s.keyAllowed)
    let c := if s.atOrderMark then s.cursor.next else s.cursor
    let c := (c.skipWhile fun d => d == ' ' || (tabs && d == '\t')).skipComment
    match c.break? with
    | none => { s with cursor := c }
    | some (_, c) =>
      skipToToken fuel { s with cursor := c, keyAllowed := s.keyAllowed || !s.inFlow }

/-- A pending key cannot go over a line end or more than 1024 characters. -/
def freshKey (c : Cursor) (key : Option PendingKey) : Except Fault (Option PendingKey) :=
  match key with
  | none => .ok none
  | some k =>
    if k.line = c.line ∧ c.index - k.index ≤ 1024 then .ok (some k)
    else if k.required then .error .malformed
    else .ok none

def dropStaleKeys (s : Layout) : Except Fault Layout := do
  return { s with
    pending := ← freshKey s.cursor s.pending
    outerPending := ← s.outerPending.mapM (freshKey s.cursor) }

/-- Ends the block collections that are indented more than a column. -/
def unwindFrom (column indent : Int) (outer : List Int) (tokens : Array Token) :
    Int × List Int × Array Token :=
  match outer with
  | [] => (indent, [], tokens)
  | i :: is =>
    if column < indent then unwindFrom column i is (tokens.push .blockEnd)
    else (indent, i :: is, tokens)

def unwind (column : Int) (s : Layout) : Layout :=
  if s.inFlow then s
  else
    let (indent, outerIndents, tokens) := unwindFrom column s.indent s.outerIndents s.tokens
    { s with indent, outerIndents, tokens }

/-- Starts a block collection before the token at `position`, if its column is a new one. -/
def startBlock (column : Int) (position : Nat) (start : Token) (s : Layout) : Layout :=
  if s.indent < column then
    { s with
      indent := column
      outerIndents := s.indent :: s.outerIndents
      tokens := s.tokens.extract 0 position ++ #[start] ++ s.tokens.extract position }
  else s

/-- Notes that a key may start at this place. -/
def saveKey (s : Layout) : Except Fault Layout :=
  if !s.keyAllowed then .ok s
  else if s.pending.any (·.required) then .error .malformed
  else
    .ok { s with pending := some {
      position := s.tokens.size
      required := !s.inFlow && s.indent == s.column
      index := s.cursor.index
      line := s.cursor.line
      column := s.cursor.column } }

/-- Gives up the pending key. -/
def forgetKey (s : Layout) : Except Fault Layout :=
  if s.pending.any (·.required) then .error .malformed else .ok { s with pending := none }

/-- A mark of `width` characters as a token. -/
def pushMark (t : Token) (width : Nat) (keyAllowed : Bool) (s : Layout) : Layout :=
  { s with tokens := s.tokens.push t, cursor := s.cursor.skip width, keyAllowed }

/-- A directive, or a mark between documents: it ends all block collections. -/
def outsideBlocks (s : Layout) : Except Fault Layout := do
  return { ← (s.unwind (-1)).forgetKey with keyAllowed := false }

def openBracket (t : Token) (s : Layout) : Except Fault Layout := do
  let s ← s.saveKey
  return pushMark t 1 true { s with pending := none, outerPending := s.pending :: s.outerPending }

def closeBracket (t : Token) (s : Layout) : Except Fault Layout := do
  let s ← s.forgetKey
  match s.outerPending with
  | [] => throw .malformed
  | pending :: outerPending => return pushMark t 1 false { s with pending, outerPending }

/-- An entry mark or a key mark; outside brackets it may start a block collection. -/
def blockMark (start t : Token) (s : Layout) : Except Fault Layout := do
  if !s.inFlow && !s.keyAllowed then throw .malformed
  let s := if s.inFlow then s else s.startBlock s.column s.tokens.size start
  return pushMark t 1 (t = .blockEntry || !s.inFlow) (← s.forgetKey)

/-- A colon makes the pending key a key; without one the key is empty. -/
def valueMark (s : Layout) : Except Fault Layout := do
  match s.pending with
  | some k =>
    let s := { s with
      pending := none
      tokens := s.tokens.extract 0 k.position ++ #[.key] ++ s.tokens.extract k.position }
    let s := if s.inFlow then s else s.startBlock k.column k.position .blockMappingStart
    return pushMark .value 1 false s
  | none =>
    if !s.inFlow && !s.keyAllowed then throw .malformed
    let s := if s.inFlow then s else s.startBlock s.column s.tokens.size .blockMappingStart
    return pushMark .value 1 (!s.inFlow) (← s.forgetKey)

/-- A part of a node that may be the start of a key. -/
def nodePart (t : Token) (behind : Cursor) (s : Layout) : Except Fault Layout := do
  return { ← s.saveKey with tokens := s.tokens.push t, cursor := behind, keyAllowed := false }

def blockScalarPart (folded : Bool) (s : Layout) : Except Fault Layout := do
  let s ← s.forgetKey
  let (text, c) ← blockScalar s.reading folded s.indent s.cursor.next
  return { s with
    tokens := s.tokens.push (.scalar (String.ofList text) false), cursor := c, keyAllowed := true }

def quotedPart (quote : Char) (s : Layout) : Except Fault Layout := do
  let (text, c) ← quotedText s.reading quote s.cursor.rest.length s.cursor.next
  s.nodePart (.scalar (String.ofList text) false) c

/-- Whether a plain scalar can start here. -/
def atPlain (s : Layout) : Bool :=
  match s.cursor.rest with
  | [] => false
  | c :: cs =>
    if ['-', '?', ':'].contains c then !atBlankOrBreak cs && (c == '-' || !s.inFlow)
    else !(isSpaceOrTab c || isBreak c || ",[]\x7b\x7d#&*!|>'\"%@\x60".toList.contains c)

def plainPart (s : Layout) : Except Fault Layout := do
  let (text, gap) ← plainText s.reading s.inFlow (s.indent + 1) (s.cursor.rest.length + 1)
    ⟨[], s.cursor, false⟩
  return { ← s.nodePart (.scalar (String.ofList text) true) gap.behind with
    keyAllowed := gap.crossesLine }

/-- Reads the token at the cursor; there is one. -/
def readToken (s : Layout) : Except Fault Layout := do
  let rest := s.cursor.rest.drop 1
  let first := s.cursor.rest.headD ' '
  let lineStart := s.cursor.column = 0
  if first = '%' ∧ lineStart then
    let s ← s.outsideBlocks
    let (d, c) ← directive s.cursor
    return { s.push (.directive d) with cursor := c }
  if first = '-' ∧ lineStart ∧ s.cursor.atDocumentMark then
    return pushMark .documentStart 3 false (← s.outsideBlocks)
  if first = '.' ∧ lineStart ∧ s.cursor.atDocumentMark then
    return pushMark .documentEnd 3 false (← s.outsideBlocks)
  match first with
  | '[' => s.openBracket .flowSequenceStart
  | '\x7b' => s.openBracket .flowMappingStart
  | ']' => s.closeBracket .flowSequenceEnd
  | '\x7d' => s.closeBracket .flowMappingEnd
  | ',' => return pushMark .flowEntry 1 true (← s.forgetKey)
  | '*' => let (name, c) ← anchorName s.cursor; s.nodePart (.alias name) c
  | '&' => let (name, c) ← anchorName s.cursor; s.nodePart (.anchor name) c
  | '!' => let (name, c) ← tagName s.cursor; s.nodePart (.tag name) c
  | '\'' => s.quotedPart '\''
  | '"' => s.quotedPart '"'
  | _ =>
    if first = '-' ∧ atBlankOrBreak rest then s.blockMark .blockSequenceStart .blockEntry
    else if first = '?' ∧ (s.inFlow ∨ atBlankOrBreak rest) then s.blockMark .blockMappingStart .key
    else if first = ':' ∧ (s.inFlow ∨ atBlankOrBreak rest) then s.valueMark
    else if first = '|' ∧ !s.inFlow then s.blockScalarPart false
    else if first = '>' ∧ !s.inFlow then s.blockScalarPart true
    else if s.atPlain then s.plainPart
    else throw .malformed

/-- All tokens up to the end of the text. -/
def run (fuel : Nat) (s : Layout) : Except Fault (Array Token) :=
  match fuel with
  | 0 => .error .malformed
  | fuel + 1 => do
    let s ← (s.skipToToken (s.cursor.rest.length + 1)).dropStaleKeys
    let s := s.unwind s.column
    if s.cursor.rest.isEmpty then return (← s.outsideBlocks).tokens
    run fuel (← s.readToken)

end Layout

/-- The tokens of a text. -/
def Token.ofText (reading : Reading) (cs : List Char) : Except Fault (List Token) := do
  if !cs.all isAllowed then throw .malformed
  return (← (Layout.ofText reading cs).run (cs.length + 1)).toList

end MarkdownVault.Yaml
