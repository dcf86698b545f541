import MarkdownVault.Yaml.Meaning

/-!
# Values as documents

Collections are written as indented blocks, only empty ones with brackets. The items of a list
stand in the column of the key that the list belongs to. A text is written plain if it then reads
back as itself, else between single quotes, and between double quotes if nothing else can hold it.
Lines are never broken to fit a width.
-/

namespace MarkdownVault.Yaml

def isTextBreak (c : Char) : Bool :=
  c == '\n' || c == '\x85' || c == '\u2028' || c == '\u2029'

def isBlankOrBreak (c : Char) : Bool := c == '\x00' || isSpaceOrTab c || isBreak c

/-- A character that may stand in a document unescaped. -/
def isShowable (c : Char) : Bool :=
  let n := c.toNat
  n == 0x0A || (0x20 ≤ n && n ≤ 0x7E) || n == 0x85 || (0xA0 ≤ n && n ≤ 0xD7FF) ||
    (0xE000 ≤ n && n ≤ 0xFFFD && n != 0xFEFF) || (0x10000 ≤ n && n < 0x10FFFF)

/-- Whether a character with the given neighbours acts as an indicator in plain text. At the ends
of the text its neighbour counts as blank. -/
def indicates (before : Option Char) (c : Char) (after : Option Char) : Bool :=
  let afterBlank := after.all isBlankOrBreak
  match before with
  | none => "#,[]\x7b\x7d&*!|>'\"%@\x60".toList.contains c ||
      ((c == '?' || c == ':' || c == '-') && afterBlank)
  | some b => (c == ':' && afterBlank) || (c == '#' && isBlankOrBreak b)

def anyIndicates : Option Char → List Char → Bool
  | _, [] => false
  | before, c :: cs => indicates before c cs.head? || anyIndicates (some c) cs

/-- Whether a character of one class stands right before one of another. -/
def hasPair (first second : Char → Bool) : List Char → Bool
  | c :: d :: cs => (first c && second d) || hasPair first second (d :: cs)
  | _ => false

/-- Whether a text could be written without quotes as far as its characters go. -/
def fitsPlain (cs : List Char) : Bool :=
  !cs.isEmpty && cs.all isShowable && !cs.any isTextBreak &&
    !cs.head?.any (· == ' ') && !cs.getLast?.any (· == ' ') &&
    !"---".toList.isPrefixOf cs && !"...".toList.isPrefixOf cs && !anyIndicates none cs

/-- Whether a text can stand between single quotes: no space touches a break. -/
def fitsSingle (cs : List Char) : Bool :=
  cs.all isShowable && !hasPair isTextBreak (· == ' ') cs && !hasPair (· == ' ') isTextBreak cs

def newLine (indent : Nat) : List Char := '\n' :: List.replicate indent ' '

/-- A row of breaks inside single quotes. A line feed at its start is written twice, since a
single one would read back as a space. -/
def writtenBreaks (indent : Nat) (breaks : List Char) : List Char :=
  (if breaks.head? = some '\n' then ['\n'] else []) ++ breaks ++ List.replicate indent ' '

/-- The content of single quotes; lines after the first are indented. -/
def singleQuoted (indent : Nat) (cs : List Char) : List Char :=
  match cs with
  | [] => []
  | c :: cs =>
    if isTextBreak c then
      writtenBreaks indent (c :: cs.takeWhile isTextBreak) ++
        singleQuoted indent (cs.dropWhile isTextBreak)
    else if c = '\'' then '\'' :: '\'' :: singleQuoted indent cs
    else c :: singleQuoted indent cs
termination_by cs.length
decreasing_by
  · have := Text.length_dropWhile_le isTextBreak cs
    simp
    omega
  · simp
  · simp

def upperHex (width n : Nat) : List Char :=
  (Text.hex width n).map Char.toUpper

/-- A character between double quotes. -/
def doubleQuotedChar (c : Char) : List Char :=
  let n := c.toNat
  match c with
  | '\x00' => ['\\', '0']
  | '\x07' => ['\\', 'a']
  | '\x08' => ['\\', 'b']
  | '\t' => ['\\', 't']
  | '\n' => ['\\', 'n']
  | '\x0B' => ['\\', 'v']
  | '\x0C' => ['\\', 'f']
  | '\r' => ['\\', 'r']
  | '\x1B' => ['\\', 'e']
  | '"' => ['\\', '"']
  | '\\' => ['\\', '\\']
  | '\x85' => ['\\', 'N']
  | '\u2028' => ['\\', 'L']
  | '\u2029' => ['\\', 'P']
  | _ =>
    if (0x20 ≤ n && n ≤ 0x7E) || (0xA0 ≤ n && n ≤ 0xD7FF) ||
        (0xE000 ≤ n && n ≤ 0xFFFD && n != 0xFEFF) then [c]
    else if n < 0x100 then ['\\', 'x'] ++ upperHex 2 n
    else if n < 0x10000 then ['\\', 'u'] ++ upperHex 4 n
    else ['\\', 'U'] ++ upperHex 8 n

/-- A text as a scalar whose further lines are indented. -/
def writtenText (indent : Nat) (s : String) : List Char :=
  let cs := s.toList
  if fitsPlain cs && Tag.ofPlain s == .text then cs
  else if fitsSingle cs then ['\''] ++ singleQuoted indent cs ++ ['\'']
  else ['"'] ++ cs.flatMap doubleQuotedChar ++ ['"']

/-- A number always has a point, so that it reads back as a number. -/
def writtenNumber : Binary64 → List Char
  | .nan => ".nan".toList
  | .infinite negative => (if negative then "-.inf" else ".inf").toList
  | x =>
    let cs := x.text.toList
    if cs.contains '.' then cs
    else cs.takeWhile (· != 'e') ++ ['.', '0'] ++ cs.dropWhile (· != 'e')

def base64Char (n : Nat) : Char :=
  if n < 26 then Char.ofNat (0x41 + n)
  else if n < 52 then Char.ofNat (0x61 + (n - 26))
  else if n < 62 then Char.ofNat (0x30 + (n - 52))
  else if n = 62 then '+'
  else '/'

def base64 : List UInt8 → List Char
  | a :: b :: c :: data =>
    let n := (a.toNat * 256 + b.toNat) * 256 + c.toNat
    [base64Char (n / 262144), base64Char (n / 4096 % 64), base64Char (n / 64 % 64),
      base64Char (n % 64)] ++ base64 data
  | [a, b] =>
    let n := (a.toNat * 256 + b.toNat) * 4
    [base64Char (n / 4096), base64Char (n / 64 % 64), base64Char (n % 64), '=']
  | [a] =>
    let n := a.toNat * 16
    [base64Char (n / 64), base64Char (n % 64), '=', '=']
  | [] => []

/-- Bytes in base 64, in indented lines of 57 bytes each. -/
def byteLines (indent : Nat) (data : List UInt8) : List Char :=
  match data with
  | [] => []
  | b :: rest =>
    newLine indent ++ base64 (b :: rest.take 56) ++ byteLines indent (rest.drop 56)
termination_by data.length
decreasing_by
  simp only [List.length_cons, List.length_drop]
  omega

def writtenBytes (indent : Nat) (data : List UInt8) : List Char :=
  if data.isEmpty then "!!binary \"\"".toList
  else "!!binary |".toList ++ byteLines indent data

/-- A scalar; empty collections are written like one. Collections that hold themselves are never
written. -/
def writtenScalar (indent : Nat) : Value → List Char
  | .null => "null".toList
  | .bool b => (if b then "true" else "false").toList
  | .int n => (Value.intText n).toList
  | .float x => writtenNumber x
  | .text s => writtenText indent s
  | .date d => d.text.toList
  | .moment t => (t.textWith ' ').toList
  | .bytes data => writtenBytes indent data
  | .list _ => ['[', ']']
  | .set _ => "!!set \x7b\x7d".toList
  | .map _ => ['\x7b', '\x7d']
  | .enclosing _ => []

def shortTag : Value → String
  | .null => "!!null"
  | .bool _ => "!!bool"
  | .int _ => "!!int"
  | .float _ => "!!float"
  | .text _ => "!!str"
  | .date _ | .moment _ => "!!timestamp"
  | .bytes _ => "!!binary"
  | .list _ => "!!seq"
  | .set _ => "!!set"
  | .map _ | .enclosing _ => "!!map"

/-- Whether a key fits on the line of its value: it is not empty, has no breaks, and is shorter
than 128 characters with its tag. -/
def isSimpleKey (key : Value) : Bool :=
  match key with
  | .text s =>
    !s.isEmpty && !s.toList.any isTextBreak && s.length + (shortTag key).length < 128
  | .bytes _ => false
  | key => (writtenScalar 0 key).length + (shortTag key).length < 128

/-- Where a value stands: behind a key or behind a list mark. -/
inductive Spot where
  | behindKey
  | behindMark
  deriving DecidableEq

mutual

/-- A value that starts behind a key or a mark in a block of the given indentation. -/
def written (spot : Spot) (indent : Nat) : Value → List Char
  | .list (v :: vs) => match spot with
    | .behindKey => newLine indent ++ writtenItems indent (v :: vs)
    | .behindMark => ' ' :: writtenItems (indent + 2) (v :: vs)
  | .map (e :: es) => match spot with
    | .behindKey => newLine (indent + 2) ++ writtenEntries (indent + 2) (e :: es)
    | .behindMark => ' ' :: writtenEntries (indent + 2) (e :: es)
  | .set (v :: vs) =>
    " !!set".toList ++ newLine (indent + 2) ++ writtenMembers (indent + 2) (v :: vs)
  | v => ' ' :: writtenScalar (indent + 2) v

def writtenItems (indent : Nat) : List Value → List Char
  | [] => []
  | v :: vs =>
    '-' :: written .behindMark indent v ++
      (if vs.isEmpty then [] else newLine indent) ++ writtenItems indent vs

def writtenEntries (indent : Nat) : List (Value × Value) → List Char
  | [] => []
  | (k, v) :: es =>
    (if isSimpleKey k then writtenScalar (indent + 2) k ++ [':'] ++ written .behindKey indent v
      else ['?', ' '] ++ writtenScalar (indent + 2) k ++ newLine indent ++ [':'] ++
        written .behindMark indent v) ++
      (if es.isEmpty then [] else newLine indent) ++ writtenEntries indent es

/-- The members of a set are keys without values. -/
def writtenMembers (indent : Nat) : List Value → List Char
  | [] => []
  | k :: ks =>
    (if isSimpleKey k then writtenScalar (indent + 2) k ++ ": null".toList
      else ['?', ' '] ++ writtenScalar (indent + 2) k ++ newLine indent ++ ": null".toList) ++
      (if ks.isEmpty then [] else newLine indent) ++ writtenMembers indent ks

end

/-- A mapping as the text of a document. -/
def documentText (entries : List (Value × Value)) : String :=
  let cs := if entries.isEmpty then ['\x7b', '\x7d'] else writtenEntries 0 entries
  String.ofList (cs ++ ['\n'])

end MarkdownVault.Yaml
