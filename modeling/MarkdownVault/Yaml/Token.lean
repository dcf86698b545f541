import MarkdownVault.Yaml.Cursor

/-!
# Tokens of a document

Brackets and entry marks, the invisible starts and ends of indented collections, and the visible
parts of a node: anchor, tag, alias and scalar.
-/

namespace MarkdownVault.Yaml

/-- A tag as written: a handle, if it has one, and what follows it. -/
structure TagName where
  handle : Option String
  suffix : String
  deriving DecidableEq, Repr

inductive Directive where
  | version (major : Nat)
  | tagPrefix (handle root : String)
  | other
  deriving DecidableEq, Repr

inductive Token where
  | directive (d : Directive)
  | documentStart
  | documentEnd
  | blockSequenceStart
  | blockMappingStart
  | blockEnd
  | flowSequenceStart
  | flowSequenceEnd
  | flowMappingStart
  | flowMappingEnd
  | flowEntry
  | blockEntry
  | key
  | value
  | alias (name : String)
  | anchor (name : String)
  | tag (name : TagName)
  /-- `plain` tells whether the text stands without quotes and block marks. -/
  | scalar (text : String) (plain : Bool)
  deriving DecidableEq, Repr

def isNamePart (c : Char) : Bool := c.isAlphanum || c == '-' || c == '_'

/-- The name of an anchor or alias after its mark. It may stand before a blank and before some
indicators. -/
def anchorName (c : Cursor) : Except Fault (String × Cursor) :=
  let c := c.next
  let name := c.takeWhile isNamePart
  let c := c.skip name.length
  let ends := atBlankOrBreak c.rest ||
    c.rest.head?.any ['?', ':', ',', ']', '}', '%', '@', '\x60'].contains
  if name.isEmpty || !ends then .error .malformed else .ok (String.ofList name, c)

def hexValue? (c : Char) : Option Nat :=
  if c.isDigit then some (c.toNat - 0x30)
  else if 'a' ≤ c ∧ c ≤ 'f' then some (c.toNat - 0x61 + 10)
  else if 'A' ≤ c ∧ c ≤ 'F' then some (c.toNat - 0x41 + 10)
  else none

/-- The number that exactly `n` hexadecimal digits at the start of a text denote. -/
def hexNumber? (n : Nat) (cs : List Char) : Option Nat := do
  let digits ← (cs.take n).mapM hexValue?
  if digits.length = n then some (digits.foldl (fun a d => 16 * a + d) 0) else none

/-- Bytes written as `%` and two digits, as many as stand in a row. -/
def uriBytes : List Char → List UInt8
  | '%' :: a :: b :: cs => match hexNumber? 2 [a, b] with
    | some n => UInt8.ofNat n :: uriBytes cs
    | none => []
  | _ => []

def isUriPart (c : Char) : Bool :=
  c.isAlphanum || "-;/?:@&=+$,_.!~*'()[]".toList.contains c

/-- Characters and escaped bytes of a tag from a text, with their number. -/
def uriText (fuel : Nat) (cs : List Char) : Except Fault (List Char × Nat) :=
  match fuel, cs with
  | fuel + 1, '%' :: _ =>
    let data := uriBytes cs
    match String.fromUTF8? (ByteArray.mk data.toArray) with
    | some s =>
      if data.isEmpty || (cs.drop (3 * data.length)).head? == some '%' then .error .malformed
      else do
        let (more, n) ← uriText fuel (cs.drop (3 * data.length))
        return (s.toList ++ more, 3 * data.length + n)
    | none => .error .malformed
  | fuel + 1, c :: cs =>
    if isUriPart c then do
      let (more, n) ← uriText fuel cs
      return (c :: more, n + 1)
    else .ok ([], 0)
  | _, _ => .ok ([], 0)

/-- What a tag says after its handle; never empty. -/
def tagUri (c : Cursor) : Except Fault (String × Cursor) := do
  let (text, n) ← uriText c.rest.length c.rest
  if n = 0 then throw .malformed
  return (String.ofList text, c.skip n)

/-- A handle: `!`, or a name between two of them. -/
def tagHandle (c : Cursor) : Except Fault (String × Cursor) :=
  match c.rest with
  | '!' :: cs =>
    if cs.head? = some ' ' then .ok ("!", c.next)
    else
      let name := cs.takeWhile isNamePart
      match cs.drop name.length with
      | '!' :: _ => .ok (String.ofList ('!' :: name ++ ['!']), c.skip (name.length + 2))
      | _ => .error .malformed
  | _ => .error .malformed

/-- A whole tag: verbatim in angle brackets, a lone `!`, or a handle and what follows it. -/
def tagName (c : Cursor) : Except Fault (TagName × Cursor) := do
  let (name, c) ← match c.rest.drop 1 with
    | '<' :: _ => do
      let (suffix, c) ← tagUri (c.skip 2)
      if c.rest.head? ≠ some '>' then throw .malformed
      pure (TagName.mk none suffix, c.next)
    | rest =>
      if atBlankOrBreak rest then pure (TagName.mk none "!", c.next)
      else do
        let word := rest.takeWhile fun d => !(d == ' ' || isBreak d)
        let (handle, c) ← if word.contains '!' then tagHandle c else pure ("!", c.next)
        let (suffix, c) ← tagUri c
        pure (TagName.mk (some handle) suffix, c)
  if atSpaceOrBreak c.rest then return (name, c) else throw .malformed

/-- The rest of a directive line: spaces, a comment and the break. -/
def directiveEnd (c : Cursor) : Except Fault Cursor :=
  let c := c.skipSpaces.skipComment
  if atBreak c.rest then .ok c.skipBreak else .error .malformed

def directiveNumber (c : Cursor) : Except Fault (Nat × Cursor) :=
  let digits := c.takeWhile Char.isDigit
  if digits.isEmpty then .error .malformed
  else .ok (digits.foldl (fun n d => 10 * n + (d.toNat - 0x30)) 0, c.skip digits.length)

/-- A directive line after its `%`. -/
def directive (c : Cursor) : Except Fault (Directive × Cursor) := do
  let c := c.next
  let name := c.takeWhile isNamePart
  let c := c.skip name.length
  if name.isEmpty || !atSpaceOrBreak c.rest then throw .malformed
  if name = "YAML".toList then
    let (major, c) ← directiveNumber c.skipSpaces
    if c.rest.head? ≠ some '.' then throw .malformed
    let (_, c) ← directiveNumber c.next
    if !atSpaceOrBreak c.rest then throw .malformed
    return (.version major, ← directiveEnd c)
  else if name = "TAG".toList then
    let (handle, c) ← tagHandle c.skipSpaces
    if c.rest.head? ≠ some ' ' then throw .malformed
    let (root, c) ← tagUri c.skipSpaces
    if !atSpaceOrBreak c.rest then throw .malformed
    return (.tagPrefix handle root, ← directiveEnd c)
  else return (.other, ← directiveEnd (c.skipWhile fun d => !isBreak d))

end MarkdownVault.Yaml
