import MarkdownVault.Value.Literal

/-!
# Values as JSON text

Pure ASCII: every other character is escaped, beyond the basic plane as two surrogates. Numbers
that are not finite are written by name. Keys that are null, truth values or numbers are written
as their texts; keys of other kinds are refused, and so are collections that hold themselves.
-/

namespace MarkdownVault.Value

def escapeUnit (n : Nat) : List Char := ['\\', 'u'] ++ Text.hex 4 n

def escapeJsonChar (c : Char) : List Char :=
  let n := c.toNat
  if c = '"' || c = '\\' then ['\\', c]
  else if c = '\n' then ['\\', 'n']
  else if c = '\r' then ['\\', 'r']
  else if c = '\t' then ['\\', 't']
  else if n = 8 then ['\\', 'b']
  else if n = 12 then ['\\', 'f']
  else if 0x20 ≤ n ∧ n < 0x7F then [c]
  else if n < 0x10000 then escapeUnit n
  else escapeUnit (0xD800 + (n - 0x10000) / 0x400) ++ escapeUnit (0xDC00 + (n - 0x10000) % 0x400)

def jsonString (s : String) : String :=
  String.ofList (['"'] ++ s.toList.flatMap escapeJsonChar ++ ['"'])

def jsonNumber (x : Binary64) : String := x.textWith "NaN" "Infinity"

/-- How the rules differ between uses of JSON text. -/
structure JsonStyle where
  /-- Whether the entries of a mapping are sorted by key. -/
  sorted : Bool
  /-- Stands in for a value that JSON has no form for. -/
  foreign : Value → Option String

/-- Every value is written as it is and in the order given; foreign ones are refused. -/
def JsonStyle.plain : JsonStyle := ⟨false, fun _ => none⟩

/-- Sorted, and foreign values as the text that shows them. -/
def JsonStyle.canonical : JsonStyle := ⟨true, fun v => some (shown v)⟩

/-- Whether the keys have a common order: all texts, all numbers, or at most one. -/
def orderableKeys (entries : List (Value × Value)) : Bool :=
  entries.length ≤ 1 ||
  (entries.all fun (k, _) => match k with | .text _ => true | _ => false) ||
  (entries.all fun (k, _) => match k with
    | .bool _ | .int _ | .float _ => true
    | _ => false)

/-- The exact value of a numeric key, `none` for what is not a finite number. -/
def keyRat? : Value → Option Rat
  | .bool b => some b.toNat
  | .int n => some n
  | .float (.finite a m e) => some (Binary64.exact a m e)
  | _ => none

/-- Texts by code point, numbers by value; an infinite key lies beyond all finite ones. -/
def keyLe : Value → Value → Bool
  | .text a, .text b => textLe a b
  | .float (.infinite a), _ => a
  | _, .float (.infinite b) => !b
  | a, b => match keyRat? a, keyRat? b with
    | some x, some y => x ≤ y
    | _, _ => true

def jsonKey? : Value → Option String
  | .null => some "null"
  | .bool b => some (if b then "true" else "false")
  | .int n => some (intText n)
  | .float x => some (jsonNumber x)
  | .text s => some s
  | _ => none

mutual

/-- One text, `", "` between items and `": "` after keys. -/
def json (style : JsonStyle) : Value → Except ValueFault String
  | .null => .ok "null"
  | .bool b => .ok (if b then "true" else "false")
  | .int n => .ok (intText n)
  | .float x => .ok (jsonNumber x)
  | .text s => .ok (jsonString s)
  | .list items => do
    let parts ← jsonItems style items
    return "[" ++ joinWith ", " parts ++ "]"
  | .map entries => do
    if style.sorted && !orderableKeys entries then throw .unorderedKeys
    let parts := jsonEntries style entries
    let parts := if style.sorted then parts.mergeSort (fun a b => keyLe a.1 b.1) else parts
    return "\x7b" ++ joinWith ", " (← parts.mapM (·.2)) ++ "\x7d"
  | .enclosing _ => throw .circular
  | v => match style.foreign v with
    | some s => .ok (jsonString s)
    | none => .error .unwritable

def jsonItems (style : JsonStyle) : List Value → Except ValueFault (List String)
  | [] => .ok []
  | v :: vs => do return (← json style v) :: (← jsonItems style vs)

/-- Every entry with its key, by which the entries may still have to be sorted. -/
def jsonEntries (style : JsonStyle) :
    List (Value × Value) → List (Value × Except ValueFault String)
  | [] => []
  | (k, v) :: es =>
    let text := match jsonKey? k with
      | none => throw .unorderedKeys
      | some key => (json style v).map fun text => jsonString key ++ ": " ++ text
    (k, text) :: jsonEntries style es

end

/-! ## Text on several lines -/

def indent (depth : Nat) : String := String.ofList ('\n' :: List.replicate (2 * depth) ' ')

/-- Parts between brackets, each on a line of its own. -/
def bracketed (opening closing : String) (depth : Nat) (parts : List String) : String :=
  if parts.isEmpty then opening ++ closing
  else opening ++ joinWith "," (parts.map (indent (depth + 1) ++ ·)) ++ indent depth ++ closing

mutual

/-- A document with two blanks for every level; all keys are shown as texts. -/
def jsonLines (depth : Nat) : Value → String
  | .list items => bracketed "[" "]" depth (jsonItemLines (depth + 1) items)
  | .map entries => bracketed "\x7b" "\x7d" depth (jsonEntryLines (depth + 1) entries)
  | .null => "null"
  | .bool b => if b then "true" else "false"
  | .int n => intText n
  | .float x => jsonNumber x
  | v => jsonString v.shown

def jsonItemLines (depth : Nat) : List Value → List String
  | [] => []
  | v :: vs => jsonLines depth v :: jsonItemLines depth vs

def jsonEntryLines (depth : Nat) : List (Value × Value) → List String
  | [] => []
  | (k, v) :: es =>
    (jsonString ((jsonKey? k).getD k.shown) ++ ": " ++ jsonLines depth v) :: jsonEntryLines depth es

end

end MarkdownVault.Value
