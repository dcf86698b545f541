import MarkdownVault.Calendar
import MarkdownVault.Number.Shortest

/-!
# Values

What the metadata of a note can hold: scalars, calendar values, bytes, and lists, sets and
mappings of values. A mapping keeps its entries in order and may have keys of any kind. A list or a
mapping may hold itself, at any depth.
-/

namespace MarkdownVault

inductive Value where
  | null
  | bool (b : Bool)
  | int (n : Int)
  | float (x : Binary64)
  | text (s : String)
  | date (d : Date)
  | moment (t : Moment)
  | bytes (data : List UInt8)
  | list (items : List Value)
  | set (items : List Value)
  | map (entries : List (Value × Value))
  /-- The collection itself in which this stands: the nearest one, or one so many levels further
  out. -/
  | enclosing (levels : Nat)
  deriving Repr, Inhabited, BEq

/-- Entries of a mapping whose keys are texts. -/
abbrev Properties := List (String × Value)

namespace Value

def ofProperties (ps : Properties) : Value := .map (ps.map fun (k, v) => (.text k, v))

/-- The value of the first entry with this text as its key. -/
def lookup? (entries : List (Value × Value)) (key : String) : Option Value :=
  entries.findSome? fun (k, v) => match k with
    | .text s => if s = key then some v else none
    | _ => none

def isNull : Value → Bool
  | .null => true
  | _ => false

/-- Null, false, zero and everything empty. -/
def isNothing : Value → Bool
  | .null => true
  | .bool b => !b
  | .int n => n == 0
  | .float x => x.isZero
  | .text s => s.isEmpty
  | .bytes data => data.isEmpty
  | .list items => items.isEmpty
  | .set items => items.isEmpty
  | .map entries => entries.isEmpty
  | .date _ | .moment _ | .enclosing _ => false

def isNumber : Value → Bool
  | .int _ | .float _ => true
  | _ => false

def text? : Value → Option String
  | .text s => some s
  | _ => none

/-! ## Collections that hold themselves -/

mutual

/-- Whether no collection at any depth holds itself. -/
def isFinite : Value → Bool
  | .enclosing _ => false
  | .list items | .set items => allFinite items
  | .map entries => entriesFinite entries
  | _ => true

def allFinite : List Value → Bool
  | [] => true
  | v :: vs => v.isFinite && allFinite vs

def entriesFinite : List (Value × Value) → Bool
  | [] => true
  | (k, v) :: es => k.isFinite && v.isFinite && entriesFinite es

end

mutual

/-- A part of a collection, itself so many levels inside, with the whole collection written out
wherever the part means it. -/
def takenFrom (whole : Value) (depth : Nat) : Value → Value
  | .enclosing levels => if levels = depth then whole else .enclosing levels
  | .list items => .list (itemsTakenFrom whole (depth + 1) items)
  | .set items => .set (itemsTakenFrom whole (depth + 1) items)
  | .map entries => .map (entriesTakenFrom whole (depth + 1) entries)
  | v => v

def itemsTakenFrom (whole : Value) (depth : Nat) : List Value → List Value
  | [] => []
  | v :: vs => takenFrom whole depth v :: itemsTakenFrom whole depth vs

def entriesTakenFrom (whole : Value) (depth : Nat) :
    List (Value × Value) → List (Value × Value)
  | [] => []
  | (k, v) :: es => (k, takenFrom whole depth v) :: entriesTakenFrom whole depth es

end

/-- The items of a list, each of them a value of its own. -/
def ownItems (items : List Value) : List Value := itemsTakenFrom (.list items) 0 items

/-- The entries of a mapping, the value of each a value of its own. -/
def ownEntries (entries : List (Value × Value)) : List (Value × Value) :=
  entriesTakenFrom (.map entries) 0 entries

/-- The value of a key, as a value of its own. -/
def entry? (entries : List (Value × Value)) (key : String) : Option Value :=
  lookup? (ownEntries entries) key

end Value

/-- Sets the value of a key: an old entry keeps its place, a new one goes last. -/
def Properties.put (ps : Properties) (key : String) (v : Value) : Properties :=
  if ps.any (·.1 == key) then ps.map fun p => if p.1 == key then (key, v) else p
  else ps ++ [(key, v)]

/-- What cannot be done with a value. -/
inductive ValueFault where
  /-- Keys of a mapping that have no text or no common order. -/
  | unorderedKeys
  /-- A value that has no written form in the exchange format. -/
  | unwritable
  /-- An integer beyond the finite numbers. -/
  | beyondNumbers
  /-- A collection that holds itself and is to be written out. -/
  | circular
  /-- A list that holds itself and is to be joined to a text; the items never end. -/
  | endless
  deriving DecidableEq, Repr

end MarkdownVault
