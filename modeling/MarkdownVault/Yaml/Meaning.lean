import MarkdownVault.Yaml.Node
import MarkdownVault.Value.Field

/-!
# The value of a node

Scalars are read as their tags say. A mapping first takes over the entries that its merge keys
lend it and then its own; of several equal keys the last value counts, at the place of the first.
A collection that holds itself has a value that holds itself, unless a merge key or a list of pairs
is to take over its parts: this counts as malformed here, although some of it could be given a value.
When several nodes have no value, the fault of the node nearest to the root is reported, and among
equally near ones the first.
-/

namespace MarkdownVault

/-- Whether two keys are the same: numbers and truth values by their exact value, moments with an
offset by the instant they denote. -/
def Value.sameKey : Value → Value → Bool
  | .null, .null => true
  | .text a, .text b => a == b
  | .bytes a, .bytes b => a == b
  | .date a, .date b => a == b
  | .moment a, .moment b =>
    if a.offset.isSome && b.offset.isSome then a.epochMicros == b.epochMicros else a == b
  | .float .nan, .float .nan => true
  | .float (.infinite a), .float (.infinite b) => a == b
  | a, b => match a.keyRat?, b.keyRat? with
    | some x, some y => x == y
    | _, _ => false

/-- Sets the value of a key: an equal key keeps its place and its spelling. -/
def Value.putEntry (entries : List (Value × Value)) (key v : Value) : List (Value × Value) :=
  if entries.any (·.1.sameKey key) then
    entries.map fun e => if e.1.sameKey key then (e.1, v) else e
  else entries ++ [(key, v)]

/-- Whether a value can be a key: collections cannot. -/
def Value.isKey : Value → Bool
  | .list _ | .set _ | .map _ | .enclosing _ => false
  | _ => true

namespace Yaml

/-! ## Scalars -/

def withoutBars (s : String) : List Char := s.toList.filter (· != '_')

def baseDigit? (base : Nat) (c : Char) : Option Nat := do
  let n ← hexValue? c
  if n < base then some n else none

/-- A whole number in a base, with a sign and blanks around it allowed. -/
def wholeNumber? (base : Nat) (cs : List Char) : Option Int := do
  let (negative, ds) := Value.takeSign (Text.trim cs)
  if ds.isEmpty then none
  let digits ← ds.mapM (baseDigit? base)
  let n := Int.ofNat (digits.foldl (fun n d => base * n + d) 0)
  return if negative then -n else n

/-- The number with the given parts below sixty, the first one unbounded. -/
def sexagesimal? (parts : List (List Char)) : Option Int := do
  return (← parts.mapM (wholeNumber? 10)).foldl (fun n part => 60 * n + part) 0

/-- An integer; its digits decide the base. -/
def intOf (s : String) : Except Fault Int :=
  let (negative, cs) := Value.takeSign (withoutBars s)
  let n? := match cs with
    | '0' :: 'b' :: ds => wholeNumber? 2 ds
    | '0' :: 'x' :: ds => wholeNumber? 16 ds
    | '0' :: ds => if ds.isEmpty then some 0 else wholeNumber? 8 ds
    | _ => if cs.contains ':' then sexagesimal? (cs.splitOn ':') else wholeNumber? 10 cs
  if cs.isEmpty then .error .emptyNumber
  else match n? with
    | some n => .ok (if negative then -n else n)
    | none => .error .badScalar

/-- A number in its common spelling, or the name of one that is not finite. -/
def commonNumber? (cs : List Char) : Option Binary64 :=
  let cs := Text.trim cs
  (Value.numeral? cs).or (Value.namedNumber? cs)

/-- Parts below sixty with the last one first, each rounded to a number and added in turn. -/
def sexagesimalSum (unit : Nat) (sum : Binary64) : List Binary64 → Binary64
  | [] => sum
  | x :: xs => sexagesimalSum (60 * unit) (sum.add (x.mul (Binary64.ofNat unit))) xs

def floatOf (s : String) : Except Fault Binary64 :=
  let (negative, cs) := Value.takeSign (lower (String.ofList (withoutBars s))).toList
  let x? := if cs = ".inf".toList then some (.infinite false)
    else if cs = ".nan".toList then some .nan
    else if cs.contains ':' then
      ((cs.splitOn ':').mapM commonNumber?).map fun parts =>
        sexagesimalSum 1 (Binary64.zero false) parts.reverse
    else commonNumber? cs
  if cs.isEmpty && !negative && !(withoutBars s).contains '+' then .error .emptyNumber
  else match x? with
    | some x => .ok (if negative then x.negate else x)
    | none => .error .badScalar

def truthOf (s : String) : Except Fault Bool :=
  let word := lower s
  if Tag.trueWords.contains word then .ok true
  else if Tag.falseWords.contains word then .ok false
  else .error .badTruth

/-- The digits behind a point as millionths; further digits are dropped. -/
def micros (fraction : List Char) : Nat :=
  Tag.digitsNat ((fraction ++ List.replicate 6 '0').take 6)

/-- A date, or a moment if there is a time of day; both must exist. -/
def timeOf (s : String) : Except Fault Value :=
  match Tag.timeText? s.toList with
  | none => .error .badTime
  | some t =>
    let date : Date := ⟨Tag.digitsNat t.year, Tag.digitsNat t.month, Tag.digitsNat t.day⟩
    match t.clock with
    | none => if date.valid then .ok (.date date) else .error .badScalar
    | some c =>
      let moment : Moment :=
        { date
          hour := Tag.digitsNat c.hour
          minute := Tag.digitsNat c.minute
          second := Tag.digitsNat c.second
          micro := micros c.fraction
          offset := c.offset.map (· * 60) }
      if moment.valid then .ok (.moment moment) else .error .badScalar

def base64Value? (c : Char) : Option Nat :=
  if c.isUpper then some (c.toNat - 0x41)
  else if c.isLower then some (c.toNat - 0x61 + 26)
  else if c.isDigit then some (c.toNat - 0x30 + 52)
  else if c = '+' then some 62
  else if c = '/' then some 63
  else none

/-- Bytes from their text in base 64. `filled` counts the characters of the current group of
four, `left` holds the bits that do not fill a byte yet. Other characters are passed over; a
group may be ended by equals signs. -/
def base64Bytes? (filled pads left : Nat) : List Char → Option (List UInt8)
  | [] => if filled = 0 then some [] else none
  | c :: cs =>
    if c = '=' then
      if 2 ≤ filled then
        if 4 ≤ filled + pads + 1 then some [] else base64Bytes? filled (pads + 1) left cs
      else base64Bytes? filled pads left cs
    else match base64Value? c with
      | none => base64Bytes? filled pads left cs
      | some n =>
        match filled with
        | 0 => base64Bytes? 1 0 n cs
        | 1 => (base64Bytes? 2 0 (n % 16) cs).map (UInt8.ofNat (left * 4 + n / 16) :: ·)
        | 2 => (base64Bytes? 3 0 (n % 4) cs).map (UInt8.ofNat (left * 16 + n / 4) :: ·)
        | _ => (base64Bytes? 0 0 0 cs).map (UInt8.ofNat (left * 64 + n) :: ·)

def bytesOf (s : String) : Except Fault Value :=
  if !s.toList.all fun c => c.toNat < 0x80 then .error .malformed
  else match base64Bytes? 0 0 0 s.toList with
    | some data => .ok (.bytes data)
    | none => .error .malformed

/-- The value of a scalar with a tag; collections have none this way. -/
def scalarOf (tag : Tag) (s : String) : Except Fault Value :=
  match tag with
  | .null => .ok .null
  | .truth => (truthOf s).map .bool
  | .int => (intOf s).map .int
  | .float => (floatOf s).map .float
  | .bytes => bytesOf s
  | .time => timeOf s
  | .text => .ok (.text s)
  | .pairs | .set | .list | .map | .merge | .default | .unknown => .error .malformed

/-! ## Collections -/

/-- A fault and how far from the root it lies. -/
structure Misfit where
  depth : Nat
  fault : Fault

/-- Two results; of two faults the nearer one counts, then the first. -/
def pairUp {α β : Type} (a : Except Misfit α) (b : Except Misfit β) : Except Misfit (α × β) :=
  match a, b with
  | .ok a, .ok b => .ok (a, b)
  | .error e, .ok _ => .error e
  | .ok _, .error e => .error e
  | .error e, .error f => .error (if f.depth < e.depth then f else e)

def gather {α : Type} : List (Except Misfit α) → Except Misfit (List α)
  | [] => .ok []
  | a :: as => (pairUp a (gather as)).map fun (a, as) => a :: as

/-- The depth of what stands inside a node: keys are built at once with all that they hold. -/
def innerDepth (within : Bool) (depth : Nat) : Nat := if within then depth else depth + 1

def asKey (depth : Nat) (key : Except Misfit Value) : Except Misfit Value :=
  key.bind fun k => if k.isKey then .ok k else .error ⟨depth, .malformed⟩

def mapOf (entries : List (Value × Value)) : List (Value × Value) :=
  entries.foldl (fun es (k, v) => Value.putEntry es k v) []

def misplaced {α : Type} (depth : Nat) : Except Misfit α := .error ⟨depth, .malformed⟩

/-- A mapping as a text: what its first default key stands for. -/
def defaultText? : List (Node × Node) → Option String
  | [] => none
  | (.scalar .default _, v) :: _ => textOf? v
  | _ :: es => defaultText? es
where
  textOf? : Node → Option String
    | .scalar _ s => some s
    | _ => none

mutual

/-- The value of a node at a depth. With `within` it is a part of a key. -/
def valueAt (within : Bool) (depth : Nat) : Node → Except Misfit Value
  | .pending _ => misplaced depth
  | .enclosing levels => .ok (.enclosing levels)
  | .scalar tag s => match scalarOf tag s with
    | .ok v => .ok v
    | .error fault =>
      let inner := match tag with
        | .list | .map | .set | .pairs => innerDepth within depth
        | _ => depth
      .error ⟨inner, fault⟩
  | .sequence tag items =>
    let inner := innerDepth within depth
    match tag with
    | .list => (gather (valuesAt within inner items)).map .list
    | .pairs => (gather (pairsAt within inner items)).map .list
    | .map | .set => misplaced inner
    | _ => misplaced depth
  | .mapping tag entries =>
    let inner := innerDepth within depth
    match tag with
    | .map => (entriesAt within inner entries).map .map
    | .set => (entriesAt within inner entries).map fun es => .set (es.map (·.1))
    | .list | .pairs => misplaced inner
    | .unknown | .merge | .default => misplaced depth
    | _ => match defaultText? entries with
      | some s => (scalarOf tag s).mapError (⟨depth, ·⟩)
      | none => misplaced depth

def valuesAt (within : Bool) (depth : Nat) : List Node → List (Except Misfit Value)
  | [] => []
  | n :: ns => valueAt within depth n :: valuesAt within depth ns

/-- Each item must be a mapping with one entry. -/
def pairsAt (within : Bool) (depth : Nat) : List Node → List (Except Misfit Value)
  | [] => []
  | .mapping _ [(k, v)] :: ns =>
    let pair := if Node.entriesClosedIn 0 [(k, v)] then
        (pairUp (valueAt within depth k) (valueAt within depth v)).map fun (k, v) => .list [k, v]
      else misplaced depth
    pair :: pairsAt within depth ns
  | _ :: ns => misplaced depth :: pairsAt within depth ns

/-- The entries of a mapping, merged ones first. -/
def entriesAt (within : Bool) (depth : Nat) (entries : List (Node × Node)) :
    Except Misfit (List (Value × Value)) :=
  match merged within depth entries with
  | .error fault => .error ⟨depth, fault⟩
  | .ok lent => (gather (lent ++ ownEntries within depth entries)).map mapOf

/-- The entries that stand in a mapping itself. -/
def ownEntries (within : Bool) (depth : Nat) :
    List (Node × Node) → List (Except Misfit (Value × Value))
  | [] => []
  | (k, v) :: es =>
    let key := match k with
      | .scalar .merge _ => none
      | .scalar .default s => some (.ok (.text s))
      | k => some (asKey depth (valueAt true depth k))
    match key with
    | none => ownEntries within depth es
    | some key => pairUp key (valueAt within depth v) :: ownEntries within depth es

/-- The entries that merge keys lend to a mapping, in order of the keys. -/
def merged (within : Bool) (depth : Nat) :
    List (Node × Node) → Except Fault (List (Except Misfit (Value × Value)))
  | [] => .ok []
  | (.scalar .merge _, .mapping _ entries) :: es =>
    if Node.entriesClosedIn 0 entries then do
      let inner ← merged within depth entries
      return inner ++ ownEntries within depth entries ++ (← merged within depth es)
    else .error .malformed
  | (.scalar .merge _, .sequence _ items) :: es => do
    return (← mergedItems within depth items) ++ (← merged within depth es)
  | (.scalar .merge _, _) :: _ => .error .malformed
  | _ :: es => merged within depth es

/-- Entries lent by several mappings; those of the first one come last and so prevail. -/
def mergedItems (within : Bool) (depth : Nat) :
    List Node → Except Fault (List (Except Misfit (Value × Value)))
  | [] => .ok []
  | .mapping _ entries :: ns =>
    if Node.entriesClosedIn 0 entries then do
      let inner ← merged within depth entries
      return (← mergedItems within depth ns) ++ inner ++ ownEntries within depth entries
    else .error .malformed
  | _ :: _ => .error .malformed

end

/-- The value of a tree. -/
def Node.value (n : Node) : Except Fault Value := (valueAt false 0 n).mapError (·.fault)

/-- The value of a text; an empty one is null. -/
def valueOf (reading : Reading) (text : String) : Except Fault Value := do
  match ← Node.ofText reading text with
  | none => return .null
  | some n => n.value

/-- The value of a text, for uses in which one that holds itself is left out: such a text counts as
malformed. -/
def finiteValueOf (reading : Reading) (text : String) : Except Fault Value :=
  match valueOf reading text with
  | .ok v => if v.isFinite then .ok v else .error .malformed
  | .error fault => .error fault

end Yaml

end MarkdownVault
