import MarkdownVault.Value.Coercion

/-!
# Typed fields

A field of a record asks for a text, an integer, a number or a list. A value of a neighbouring
kind is taken when nothing is lost: a whole number or a numeral for an integer, bytes in UTF-8
for a text, a set for a list.
-/

namespace MarkdownVault.Value

def utf8Text? (data : List UInt8) : Option String := String.fromUTF8? ⟨data.toArray⟩

def readText? : Value → Option String
  | .text s => some s
  | .bytes data => utf8Text? data
  | _ => none

/-- A sign and digits; only zeros may follow a point. -/
def wholeNumeral? (cs : List Char) : Option Int := do
  let (negative, cs) := takeSign cs
  let (whole, fraction) := cs.span (· != '.')
  if whole.isEmpty || !(fraction.drop 1).all (· == '0') then none
  let n := Int.ofNat (Text.digitsValue (← Text.groupedDigits? Char.isDigit whole))
  return if negative then -n else n

/-- Whole numbers are taken within 64 bits only, integers of any size. -/
def readInt? : Value → Option Int
  | .int n => some n
  | .bool b => some b.toNat
  | .float x => do
    let n ← x.toInt?
    if n.natAbs < Nat.pow 2 63 then some n else none
  | .text s => wholeNumeral? (Text.trim s.toList)
  | _ => none

def namedNumber? (cs : List Char) : Option Binary64 :=
  let (negative, cs) := takeSign cs
  let name := lower (String.ofList cs)
  if name = "inf" ∨ name = "infinity" then some (.infinite negative)
  else if name = "nan" then some .nan
  else none

/-- Numerals in ASCII digits, and the names of the numbers that are not finite. -/
def readNumber? : Value → Option Binary64
  | .float x => some x
  | .int n => Binary64.ofInt? n
  | .bool b => some (Binary64.ofNat b.toNat)
  | .text s =>
    let cs := Text.trim s.toList
    if cs.all fun c => c.toNat < 0x80 then (numeral? cs).or (namedNumber? cs) else none
  | _ => none

/-- Lists and sets whose items can all be read. -/
def readList? {α : Type} (item : Value → Option α) : Value → Option (List α)
  | .list items => items.mapM item
  | .set items => items.mapM item
  | _ => none

/-- Mappings with texts as keys. Of two keys that are read as one text the later one counts. -/
def readProperties? : Value → Option Properties
  | .map entries => do
    let fields ← entries.mapM fun (k, v) => do return (← readText? k, v)
    return fields.foldl (fun ps (k, v) => ps.put k v) []
  | _ => none

/-- A field that has a default: reading fails only on a value that is there. -/
def readField? {α : Type} (entries : List (Value × Value)) (key : String)
    (read : Value → Option α) (default : Option α) : Option α :=
  match lookup? entries key with
  | some v => read v
  | none => default

end MarkdownVault.Value
