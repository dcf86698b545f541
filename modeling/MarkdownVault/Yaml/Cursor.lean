/-!
# Places in a document

A cursor is the text that is left together with its line, column and character number. Blanks
are spaces and tabs; five characters break a line, and a carriage return with a line feed after
it is one break.
-/

namespace MarkdownVault.Yaml

/-- Two readings of the format are in use. The strict one separates tokens by spaces alone; the
lenient one takes tabs as well wherever they do not indent, and differs in the indicators that
end a word inside brackets. -/
inductive Reading where
  | strict
  | lenient
  deriving DecidableEq, Repr

/-- Why a document has no value. -/
inductive Fault where
  /-- The text is not well formed, or a node cannot be what its tag says. -/
  | malformed
  /-- A scalar is written as a number or a time but denotes none. -/
  | badScalar
  /-- A scalar tagged as a truth value is none of the known words. -/
  | badTruth
  /-- A scalar tagged as a time is not written as one. -/
  | badTime
  /-- A scalar tagged as a number is empty. -/
  | emptyNumber
  deriving DecidableEq, Repr

def isBreak (c : Char) : Bool :=
  c == '\n' || c == '\r' || c == '\x85' || c == '\u2028' || c == '\u2029'

def isSpaceOrTab (c : Char) : Bool := c == ' ' || c == '\t'

/-- Characters that a document may hold. -/
def isAllowed (c : Char) : Bool :=
  let n := c.toNat
  n == 9 || n == 10 || n == 13 || (0x20 ≤ n && n ≤ 0x7E) || n == 0x85 ||
    (0xA0 ≤ n && n ≤ 0xD7FF) || (0xE000 ≤ n && n ≤ 0xFFFD) || 0x10000 ≤ n

/-- A break or the end of the text. -/
def atBreak (cs : List Char) : Bool := cs.head?.all isBreak

/-- A space, a break or the end of the text. -/
def atSpaceOrBreak (cs : List Char) : Bool := cs.head?.all fun c => c == ' ' || isBreak c

/-- A blank, a break or the end of the text. -/
def atBlankOrBreak (cs : List Char) : Bool := cs.head?.all fun c => isSpaceOrTab c || isBreak c

structure Cursor where
  rest : List Char
  line : Nat
  column : Nat
  index : Nat
  deriving Repr

namespace Cursor

def ofText (cs : List Char) : Cursor := ⟨cs, 0, 0, 0⟩

/-- Passes one character. A byte order mark takes no column. -/
def next (c : Cursor) : Cursor :=
  match c.rest with
  | [] => c
  | d :: rest =>
    if isBreak d && !(d == '\r' && rest.head? == some '\n') then ⟨rest, c.line + 1, 0, c.index + 1⟩
    else ⟨rest, c.line, if d = '\uFEFF' then c.column else c.column + 1, c.index + 1⟩

def skip : Nat → Cursor → Cursor
  | 0, c => c
  | n + 1, c => skip n c.next

def takeWhile (c : Cursor) (p : Char → Bool) : List Char := c.rest.takeWhile p

def skipWhile (p : Char → Bool) (c : Cursor) : Cursor := c.skip (c.takeWhile p).length

def skipSpaces (c : Cursor) : Cursor := c.skipWhile (· == ' ')

/-- Passes a comment, if one begins here. -/
def skipComment (c : Cursor) : Cursor :=
  if c.rest.head? = some '#' then c.skipWhile fun d => !isBreak d else c

/-- The break at this place and the cursor behind it. All but the two separators of lines and
paragraphs count as line feeds. -/
def break? (c : Cursor) : Option (Char × Cursor) :=
  match c.rest with
  | '\r' :: '\n' :: _ => some ('\n', c.skip 2)
  | d :: _ =>
    if d = '\u2028' ∨ d = '\u2029' then some (d, c.next)
    else if isBreak d then some ('\n', c.next)
    else none
  | [] => none

/-- Passes the break at this place, if there is one. -/
def skipBreak (c : Cursor) : Cursor := (c.break?.map (·.2)).getD c

/-- Whether three marks stand alone at this place, as between two documents. -/
def atDocumentMark (c : Cursor) : Bool :=
  match c.rest with
  | '-' :: '-' :: '-' :: rest => atBlankOrBreak rest
  | '.' :: '.' :: '.' :: rest => atBlankOrBreak rest
  | _ => false

end Cursor

end MarkdownVault.Yaml
