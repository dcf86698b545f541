import MarkdownVault.Yaml.Token

/-!
# Texts of scalars

The four ways to write a scalar: plain, between quotes, and as a block of indented lines. A
single line feed inside a plain, quoted or folded text counts as a space; of several in a row the
first one is dropped.
-/

namespace MarkdownVault.Yaml

/-- What a line break and the breaks of the empty lines after it stand for. -/
def foldBreaks (first : Char) (more : List Char) : List Char :=
  if first ≠ '\n' then first :: more else if more.isEmpty then [' '] else more

/-! ## Plain scalars -/

def isFlowMark (c : Char) : Bool := [',', '[', ']', '{', '}'].contains c

/-- The characters of a plain scalar up to a blank or an indicator that ends it. -/
def plainWord (reading : Reading) (flow : Bool) : List Char → Except Fault (List Char)
  | [] => .ok []
  | c :: cs =>
    if isSpaceOrTab c || isBreak c then .ok []
    else if c = ':' && atBlankOrBreak cs then .ok []
    else if flow && isFlowMark c then .ok []
    else match reading with
      | .strict =>
        if flow && (c == '?' || (c == ':' && cs.head?.any isFlowMark)) then .ok []
        else (plainWord reading flow cs).map (c :: ·)
      | .lenient =>
        if flow && c == ':' && cs.head?.any (fun d => d == '?' || isFlowMark d) then
          .error .malformed
        else (plainWord reading flow cs).map (c :: ·)

/-- What stands between two words of a plain scalar. -/
structure Gap where
  text : List Char
  behind : Cursor
  /-- Whether a line ends in the gap. -/
  crossesLine : Bool

def isPlainBlank : Reading → Char → Bool
  | .strict, c => c == ' '
  | .lenient, c => isSpaceOrTab c

/-- The breaks of empty lines. Tells also whether a document mark follows. A tab may not stand
left of the indentation. -/
def emptyLines (reading : Reading) (indent : Int) (fuel : Nat) (c : Cursor) :
    Except Fault (List Char × Cursor × Bool) :=
  match fuel with
  | 0 => .ok ([], c, false)
  | fuel + 1 =>
    if c.atDocumentMark then .ok ([], c, true)
    else
      let spaces := c.skipSpaces
      if reading = .lenient ∧ spaces.rest.head? = some '\t' ∧ spaces.column < indent then
        .error .malformed
      else
        let c := c.skipWhile (isPlainBlank reading)
        match c.break? with
        | none => .ok ([], c, false)
        | some (b, c) => do
          let (breaks, c, marked) ← emptyLines reading indent fuel c
          return (b :: breaks, c, marked)

def plainGap (reading : Reading) (indent : Int) (c : Cursor) : Except Fault Gap :=
  let blanks := c.takeWhile (isPlainBlank reading)
  let c := c.skip blanks.length
  match c.break? with
  | none => .ok ⟨blanks, c, false⟩
  | some (b, c) => do
    let (breaks, c, marked) ← emptyLines reading indent (c.rest.length + 1) c
    return ⟨if marked then [] else foldBreaks b breaks, c, true⟩

/-- The words of a plain scalar with the gaps between them, and the cursor behind the last gap.
Tells also whether that gap crosses a line. -/
def plainText (reading : Reading) (flow : Bool) (indent : Int) (fuel : Nat) (before : Gap) :
    Except Fault (List Char × Gap) :=
  match fuel with
  | 0 => .ok ([], before)
  | fuel + 1 => do
    let c := before.behind
    if c.rest.head? = some '#' then return ([], before)
    let word ← plainWord reading flow c.rest
    if word.isEmpty then return ([], before)
    let gap ← plainGap reading indent (c.skip word.length)
    let text := before.text ++ word
    if gap.text.isEmpty || (!flow && gap.behind.column < indent) then return (text, gap)
    let (more, gap) ← plainText reading flow indent fuel gap
    return (text ++ more, gap)

/-! ## Quoted scalars -/

/-- The characters that a backslash and one letter stand for. -/
def simpleEscape? : Char → Option Char
  | '0' => some '\x00'
  | 'a' => some '\x07'
  | 'b' => some '\x08'
  | 't' => some '\t'
  | '\t' => some '\t'
  | 'n' => some '\n'
  | 'v' => some '\x0B'
  | 'f' => some '\x0C'
  | 'r' => some '\r'
  | 'e' => some '\x1B'
  | ' ' => some ' '
  | '"' => some '"'
  | '\\' => some '\\'
  | '/' => some '/'
  | 'N' => some '\x85'
  | '_' => some '\xA0'
  | 'L' => some '\u2028'
  | 'P' => some '\u2029'
  | _ => none

/-- How many hexadecimal digits follow a backslash and this letter. -/
def escapeWidth? : Char → Option Nat
  | 'x' => some 2
  | 'u' => some 4
  | 'U' => some 8
  | _ => none

/-- The empty lines inside a quoted text, and the blanks before the next word. -/
def quotedLines (fuel : Nat) (c : Cursor) : Except Fault (List Char × Cursor) :=
  match fuel with
  | 0 => .ok ([], c)
  | fuel + 1 =>
    if c.atDocumentMark then .error .malformed
    else
      let c := c.skipWhile isSpaceOrTab
      match c.break? with
      | none => .ok ([], c)
      | some (b, c) => do
        let (breaks, c) ← quotedLines fuel c
        return (b :: breaks, c)

/-- The character with a number; which fault a number without a character is depends on the
reading. -/
def numberedChar (reading : Reading) (n : Nat) : Except Fault Char :=
  if n.isValidChar then .ok (Char.ofNat n)
  else .error (if reading = .strict && 0x10FFFF < n then .badScalar else .malformed)

/-- What an escape stands for, behind its backslash. -/
def escaped (reading : Reading) (c : Cursor) : Except Fault (List Char × Cursor) :=
  match c.break? with
  | some (_, c) => quotedLines (c.rest.length + 1) c
  | none => match c.rest with
    | [] => .error .malformed
    | d :: ds => match simpleEscape? d with
      | some e => .ok ([e], c.next)
      | none => match escapeWidth? d with
        | none => .error .malformed
        | some width => match hexNumber? width ds with
          | none => .error .malformed
          | some n => do return ([← numberedChar reading n], c.skip (width + 1))

/-- The text up to the closing quote and the cursor behind that. -/
def quotedText (reading : Reading) (quote : Char) (fuel : Nat) (c : Cursor) :
    Except Fault (List Char × Cursor) :=
  match fuel with
  | 0 => .error .malformed
  | fuel + 1 => do
    match c.rest with
    | [] => throw .malformed
    | d :: ds =>
      if d = quote then
        if quote = '\'' ∧ ds.head? = some '\'' then
          let (more, c) ← quotedText reading quote fuel (c.skip 2)
          return ('\'' :: more, c)
        else return ([], c.next)
      else if d = '\\' ∧ quote = '"' then
        let (text, c) ← escaped reading c.next
        let (more, c) ← quotedText reading quote fuel c
        return (text ++ more, c)
      else if isSpaceOrTab d || isBreak d then
        let blanks := c.takeWhile isSpaceOrTab
        let c := c.skip blanks.length
        match c.break? with
        | none =>
          let (more, c) ← quotedText reading quote fuel c
          return (blanks ++ more, c)
        | some (b, c) =>
          let (breaks, c) ← quotedLines (c.rest.length + 1) c
          let (more, c) ← quotedText reading quote fuel c
          return (foldBreaks b breaks ++ more, c)
      else
        let (more, c) ← quotedText reading quote fuel c.next
        return (d :: more, c)

/-! ## Block scalars -/

/-- Which of the breaks at the end of a block belong to its text. -/
inductive Chomping where
  | strip
  | clip
  | keep
  deriving DecidableEq, Repr

def chompingMark? (c : Cursor) : Option Chomping :=
  match c.rest with
  | '+' :: _ => some .keep
  | '-' :: _ => some .strip
  | _ => none

def indentMark? (c : Cursor) : Option Nat :=
  match c.rest with
  | d :: _ => if d.isDigit then some (d.toNat - 0x30) else none
  | [] => none

/-- The two optional marks behind `|` or `>`, in either order. -/
def blockMarks (c : Cursor) : Chomping × Option Nat × Cursor :=
  match chompingMark? c with
  | some chomping => match indentMark? c.next with
    | some n => (chomping, some n, c.skip 2)
    | none => (chomping, none, c.next)
  | none => match indentMark? c with
    | none => (.clip, none, c)
    | some n => match chompingMark? c.next with
      | some chomping => (chomping, some n, c.skip 2)
      | none => (.clip, some n, c.next)

/-- The rest of the first line of a block scalar. -/
def blockHeaderEnd (reading : Reading) (c : Cursor) : Except Fault Cursor :=
  let behind := match reading with
    | .strict => c.skipSpaces.skipComment
    | .lenient => (c.skipWhile isSpaceOrTab).skipComment
  if reading = .strict ∧ !atSpaceOrBreak c.rest then .error .malformed
  else if atBreak behind.rest then .ok behind.skipBreak
  else .error .malformed

/-- Passes spaces up to a column. -/
def skipIndent (indent : Nat) (c : Cursor) : Cursor :=
  c.skip (min (indent - c.column) (c.takeWhile (· == ' ')).length)

/-- Whether a tab stands where an indentation is looked for. -/
def tabInIndent (reading : Reading) (c : Cursor) : Bool :=
  reading == .lenient && c.rest.head? == some '\t'

/-- The breaks of the empty lines at the start of a block, the widest indentation among them and
the cursor behind the indentation of the first line that is not empty. -/
def leadingLines (reading : Reading) (fuel width : Nat) (c : Cursor) :
    Except Fault (List Char × Nat × Cursor) :=
  match fuel with
  | 0 => .ok ([], width, c)
  | fuel + 1 =>
    let c := c.skipSpaces
    let width := max width c.column
    if tabInIndent reading c then .error .malformed
    else match c.break? with
      | none => .ok ([], width, c)
      | some (b, c) => do
        let (breaks, width, c) ← leadingLines reading fuel width c
        return (b :: breaks, width, c)

/-- The breaks of empty lines and the cursor behind the indentation of the next line. -/
def blockLines (reading : Reading) (indent fuel : Nat) (c : Cursor) :
    Except Fault (List Char × Cursor) :=
  match fuel with
  | 0 => .ok ([], c)
  | fuel + 1 =>
    let c := skipIndent indent c
    if c.column < indent ∧ tabInIndent reading c then .error .malformed
    else match c.break? with
      | none => .ok ([], c)
      | some (b, c) => do
        let (breaks, c) ← blockLines reading indent fuel c
        return (b :: breaks, c)

/-- The lines of a block, given the breaks before its first line. -/
def blockText (reading : Reading) (folded : Bool) (chomping : Chomping) (indent fuel : Nat)
    (breaks : List Char) (c : Cursor) : Except Fault (List Char × Cursor) :=
  match fuel with
  | 0 => .ok ([], c)
  | fuel + 1 => do
    let startsBlank := c.rest.head?.any isSpaceOrTab
    let line := c.takeWhile fun d => !isBreak d
    let c := c.skip line.length
    let (lineBreak, c) := match c.break? with
      | some (b, c) => ([b], c)
      | none => ([], c)
    let (next, c) ← blockLines reading indent (c.rest.length + 1) c
    if c.column = indent ∧ !c.rest.isEmpty then
      let folds := folded && lineBreak == ['\n'] && !startsBlank &&
        !c.rest.head?.any isSpaceOrTab
      let glue := if folds then (if next.isEmpty then [' '] else []) else lineBreak
      let (more, c) ← blockText reading folded chomping indent fuel next c
      return (breaks ++ line ++ glue ++ more, c)
    else
      let ending := match chomping with
        | .strip => []
        | .clip => lineBreak
        | .keep => lineBreak ++ next
      return (breaks ++ line ++ ending, c)

/-- A block scalar behind its `|` or `>`, inside a collection of the given indentation. -/
def blockScalar (reading : Reading) (folded : Bool) (parent : Int) (c : Cursor) :
    Except Fault (List Char × Cursor) := do
  let (chomping, increment, c) := blockMarks c
  if increment = some 0 then throw .malformed
  let c ← blockHeaderEnd reading c
  let least := (max (parent + 1) 1).toNat
  let fuel := c.rest.length + 1
  let (breaks, indent, c) ← match increment with
    | none => do
      let (breaks, width, c) ← leadingLines reading fuel 0 c
      pure (breaks, max least width, c)
    | some n => do
      let indent := least + n - 1
      let (breaks, c) ← blockLines reading indent fuel c
      pure (breaks, indent, c)
  if c.column = indent ∧ !c.rest.isEmpty then
    blockText reading folded chomping indent fuel breaks c
  else return (if chomping = .keep then breaks else [], c)

end MarkdownVault.Yaml
