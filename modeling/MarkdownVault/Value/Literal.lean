import MarkdownVault.Value
import MarkdownVault.Text.Basic
import MarkdownVault.Text.Quoted

/-!
# Values as literals

The unambiguous written form of a value, as shown inside lists and mappings: texts quoted, dates
and moments by their components. A collection is not written out again inside of itself.
-/

namespace MarkdownVault.Value

def natText (n : Nat) : String := String.ofList (Nat.toDigits 10 n)

def intText (n : Int) : String :=
  if n < 0 then "-" ++ natText n.natAbs else natText n.natAbs

def escapeByte (quote : Char) (b : UInt8) : List Char :=
  let c := Char.ofNat b.toNat
  if c = quote || c = '\\' then ['\\', c]
  else if c = '\n' then ['\\', 'n']
  else if c = '\r' then ['\\', 'r']
  else if c = '\t' then ['\\', 't']
  else if 0x20 ≤ b.toNat ∧ b.toNat < 0x7F then [c]
  else ['\\', 'x'] ++ Text.hex 2 b.toNat

def bytesLiteral (data : List UInt8) : String :=
  let quote := Text.quoteFor (data.map fun b => Char.ofNat b.toNat)
  String.ofList (['b', quote] ++ data.flatMap (escapeByte quote) ++ [quote])

def dateLiteral (d : Date) : String :=
  "datetime.date(" ++ joinWith ", " ([d.year, d.month, d.day].map natText) ++ ")"

/-- An offset in whole days and seconds, the seconds never negative. -/
def offsetLiteral (offset : Int) : String :=
  if offset = 0 then "datetime.timezone.utc"
  else
    let days := Int.fdiv offset 86400
    let seconds := Int.fmod offset 86400
    let parts := (if days = 0 then [] else ["days=" ++ intText days]) ++
      (if seconds = 0 then [] else ["seconds=" ++ intText seconds])
    "datetime.timezone(datetime.timedelta(" ++ joinWith ", " parts ++ "))"

/-- Seconds and microseconds are left out when nothing but zeros would follow. -/
def momentLiteral (t : Moment) : String :=
  let fraction := if t.micro = 0 then (if t.second = 0 then [] else [t.second])
    else [t.second, t.micro]
  let parts := [t.date.year, t.date.month, t.date.day, t.hour, t.minute] ++ fraction
  let zone := match t.offset with
    | none => []
    | some o => ["tzinfo=" ++ offsetLiteral o]
  "datetime.datetime(" ++ joinWith ", " (parts.map natText ++ zone) ++ ")"

def boolLiteral (b : Bool) : String := if b then "True" else "False"

/-- What stands for a list, and what for a set or a mapping, inside of itself. -/
def listAgain : String := "[...]"
def mapAgain : String := "\x7b...\x7d"

mutual

/-- The form inside of collections, for each of which a mark is given, the innermost first. -/
def literalIn (outer : List String) : Value → String
  | .null => "None"
  | .bool b => boolLiteral b
  | .int n => intText n
  | .float x => x.text
  | .text s => quoted s
  | .date d => dateLiteral d
  | .moment t => momentLiteral t
  | .bytes data => bytesLiteral data
  | .list items => "[" ++ joinWith ", " (literalsIn (listAgain :: outer) items) ++ "]"
  | .set items =>
    if items.isEmpty then "set()"
    else "\x7b" ++ joinWith ", " (literalsIn (mapAgain :: outer) items) ++ "\x7d"
  | .map entries => "\x7b" ++ joinWith ", " (entryLiteralsIn (mapAgain :: outer) entries) ++ "\x7d"
  | .enclosing levels => outer.getD levels "..."

def literalsIn (outer : List String) : List Value → List String
  | [] => []
  | v :: vs => literalIn outer v :: literalsIn outer vs

def entryLiteralsIn (outer : List String) : List (Value × Value) → List String
  | [] => []
  | (k, v) :: es =>
    (literalIn outer k ++ ": " ++ literalIn outer v) :: entryLiteralsIn outer es

end

def literal (v : Value) : String := v.literalIn []

/-- The form shown on its own: texts, dates and moments are then written plainly. -/
def shown : Value → String
  | .text s => s
  | .date d => d.text
  | .moment t => t.textWith ' '
  | v => literal v

end MarkdownVault.Value
