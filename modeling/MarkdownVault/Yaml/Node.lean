import MarkdownVault.Yaml.Layout
import MarkdownVault.Yaml.Tag

/-!
# The tree of a document

Nodes are scalars, sequences and mappings with their tags. An alias stands for a copy of the node
that its anchor names, or, inside of that node, for the node itself. A text holds at most one
document.
-/

namespace MarkdownVault.Yaml

inductive Node where
  | scalar (tag : Tag) (text : String)
  | sequence (tag : Tag) (items : List Node)
  | mapping (tag : Tag) (entries : List (Node × Node))
  /-- A node that is not read to its end, by its anchor. -/
  | pending (anchor : String)
  /-- The collection itself in which this stands: the nearest one, or one so many levels further
  out. -/
  | enclosing (levels : Nat)
  deriving Repr

namespace Node

/-! ## Nodes that hold themselves -/

mutual

/-- A part of a node, itself so many levels inside, in which the anchor of the node means the node. -/
def tiedIn (anchor : String) (depth : Nat) : Node → Node
  | .pending other => if other = anchor then .enclosing depth else .pending other
  | .sequence tag items => .sequence tag (itemsTiedIn anchor (depth + 1) items)
  | .mapping tag entries => .mapping tag (entriesTiedIn anchor (depth + 1) entries)
  | n => n

def itemsTiedIn (anchor : String) (depth : Nat) : List Node → List Node
  | [] => []
  | n :: ns => tiedIn anchor depth n :: itemsTiedIn anchor depth ns

def entriesTiedIn (anchor : String) (depth : Nat) : List (Node × Node) → List (Node × Node)
  | [] => []
  | (k, v) :: es =>
    (tiedIn anchor depth k, tiedIn anchor depth v) :: entriesTiedIn anchor depth es

end

/-- A node in which its anchor means the node itself. -/
def tied (anchor : String) : Node → Node
  | .sequence tag items => .sequence tag (itemsTiedIn anchor 0 items)
  | .mapping tag entries => .mapping tag (entriesTiedIn anchor 0 entries)
  | n => n

mutual

/-- Whether a part of a node, itself so many levels inside, means no collection beyond it. -/
def isClosedIn (depth : Nat) : Node → Bool
  | .scalar _ _ => true
  | .pending _ => false
  | .enclosing levels => levels < depth
  | .sequence _ items => itemsClosedIn (depth + 1) items
  | .mapping _ entries => entriesClosedIn (depth + 1) entries

def itemsClosedIn (depth : Nat) : List Node → Bool
  | [] => true
  | n :: ns => isClosedIn depth n && itemsClosedIn depth ns

def entriesClosedIn (depth : Nat) : List (Node × Node) → Bool
  | [] => true
  | (k, v) :: es => isClosedIn depth k && isClosedIn depth v && entriesClosedIn depth es

end

/-! ## Reading -/

/-- The node of an empty place. -/
def empty : Node := .scalar .null ""

/-- The tokens that are left and the anchors seen so far; a node that is still being read has
none yet. -/
structure Source where
  tokens : List Token
  anchors : List (String × Option Node)

abbrev Reader := StateT Source (Except Fault)

def peek : Reader (Option Token) := do return (← get).tokens.head?

def next : Reader Unit := modify fun s => { s with tokens := s.tokens.drop 1 }

/-- Passes a token, if it comes next. -/
def accept (t : Token) : Reader Bool := do
  if (← peek) = some t then
    next
    return true
  else return false

/-- Whether the next token is one of these. -/
def atOneOf (ts : List Token) : Reader Bool := do return (← peek).any ts.contains

def demand (t : Token) : Reader Unit := do if !(← accept t) then throw .malformed

/-- The marks in front of a node: anchor and tag, each at most once. -/
structure Marks where
  anchor : Option String
  tag : Option TagName

def marks : Reader Marks := do
  match ← peek with
  | some (.anchor name) =>
    next
    match ← peek with
    | some (.tag t) => next; return ⟨some name, some t⟩
    | _ => return ⟨some name, none⟩
  | some (.tag t) =>
    next
    match ← peek with
    | some (.anchor name) => next; return ⟨some name, some t⟩
    | _ => return ⟨none, some t⟩
  | _ => return ⟨none, none⟩

/-- The full name of a tag. -/
def fullTag (handles : List (String × String)) (t : TagName) : Except Fault String :=
  match t.handle with
  | none => .ok t.suffix
  | some handle => match handles.lookup handle with
    | some root => .ok (root ++ t.suffix)
    | none => .error .malformed

/-- The tag of a collection: that of its kind unless a tag other than `!` is given. -/
def tagOr (kind : Tag) (name : Option String) : Tag :=
  match name with
  | none => kind
  | some name => if name = "!" then kind else .ofName name

/-- The tag of a scalar. With a lone `!` even a quoted text is read like a plain one. -/
def scalarTag (name : Option String) (plain : Bool) (text : String) : Tag :=
  match name with
  | none => if plain then .ofPlain text else .text
  | some name => if name = "!" then .ofPlain text else .ofName name

def openAnchor (name : String) : Reader Unit := do
  if (← get).anchors.any (·.1 == name) then throw .malformed
  modify fun s => { s with anchors := (name, none) :: s.anchors }

def closeAnchor (name : String) (node : Node) : Reader Unit :=
  modify fun s => { s with
    anchors := s.anchors.map fun a => if a.1 == name then (name, some node) else a }

/-- The node of an alias. -/
def aliased (name : String) : Reader Node := do
  match (← get).anchors.lookup name with
  | some (some node) => return node
  | some none => return .pending name
  | none => throw .malformed

/-- Where a node stands: inside brackets, in an indented collection, or as a part of an indented
mapping, where a list needs no indentation. -/
inductive Place where
  | flow
  | block
  | mappingPart
  deriving DecidableEq, Repr

mutual

def node (handles : List (String × String)) (fuel : Nat) (place : Place) : Reader Node :=
  match fuel with
  | 0 => throw .malformed
  | fuel + 1 => do
    match ← peek with
    | some (.alias name) => next; aliased name
    | _ =>
      let m ← marks
      let tag ← m.tag.mapM fun t => fullTag handles t
      match m.anchor with
      | none => content handles fuel place tag m.tag.isSome
      | some name =>
        openAnchor name
        let n := (← content handles fuel place tag true).tied name
        closeAnchor name n
        return n

/-- A node behind its marks. Only a marked node may be empty. -/
def content (handles : List (String × String)) (fuel : Nat) (place : Place)
    (tag : Option String) (marked : Bool) : Reader Node :=
  match fuel with
  | 0 => throw .malformed
  | fuel + 1 => do
    match ← peek with
    | some (.scalar text plain) => next; return .scalar (scalarTag tag plain text) text
    | some .flowSequenceStart =>
      next
      return .sequence (tagOr .list tag) (← flowItems handles fuel true)
    | some .flowMappingStart =>
      next
      return .mapping (tagOr .map tag) (← flowEntries handles fuel true)
    | t =>
      if place = .mappingPart ∧ t = some .blockEntry then
        return .sequence (tagOr .list tag) (← looseItems handles fuel)
      else if place ≠ .flow ∧ t = some .blockSequenceStart then
        next
        return .sequence (tagOr .list tag) (← blockItems handles fuel)
      else if place ≠ .flow ∧ t = some .blockMappingStart then
        next
        return .mapping (tagOr .map tag) (← blockEntries handles fuel)
      else if marked then return .scalar (scalarTag tag true "") ""
      else throw .malformed

/-- A node unless one of the given tokens comes next. -/
def nodeUnless (handles : List (String × String)) (fuel : Nat) (place : Place)
    (ends : List Token) : Reader Node :=
  match fuel with
  | 0 => throw .malformed
  | fuel + 1 => do if ← atOneOf ends then return empty else node handles fuel place

/-- The items of an indented list, up to its end. -/
def blockItems (handles : List (String × String)) (fuel : Nat) : Reader (List Node) :=
  match fuel with
  | 0 => throw .malformed
  | fuel + 1 => do
    if ← accept .blockEntry then
      let item ← nodeUnless handles fuel .block [.blockEntry, .blockEnd]
      return item :: (← blockItems handles fuel)
    else
      demand .blockEnd
      return []

/-- The items of a list that is indented no more than the key it belongs to. -/
def looseItems (handles : List (String × String)) (fuel : Nat) : Reader (List Node) :=
  match fuel with
  | 0 => throw .malformed
  | fuel + 1 => do
    if ← accept .blockEntry then
      let item ← nodeUnless handles fuel .block [.blockEntry, .key, .value, .blockEnd]
      return item :: (← looseItems handles fuel)
    else return []

/-- The entries of an indented mapping, up to its end. A key or a value may be missing. -/
def blockEntries (handles : List (String × String)) (fuel : Nat) :
    Reader (List (Node × Node)) :=
  match fuel with
  | 0 => throw .malformed
  | fuel + 1 => do
    if ← accept .key then
      let ends := [.key, .value, .blockEnd]
      let key ← nodeUnless handles fuel .mappingPart ends
      let value ← if ← accept .value then nodeUnless handles fuel .mappingPart ends else pure empty
      return (key, value) :: (← blockEntries handles fuel)
    else
      demand .blockEnd
      return []

/-- The items of a list in brackets, up to its end. A single entry may stand for a mapping. -/
def flowItems (handles : List (String × String)) (fuel : Nat) (first : Bool) :
    Reader (List Node) :=
  match fuel with
  | 0 => throw .malformed
  | fuel + 1 => do
    if ← accept .flowSequenceEnd then return []
    if !first then demand .flowEntry
    if ← accept .key then
      let key ← nodeUnless handles fuel .flow [.value, .flowEntry, .flowSequenceEnd]
      let value ← if ← accept .value then
          nodeUnless handles fuel .flow [.flowEntry, .flowSequenceEnd]
        else pure empty
      return .mapping .map [(key, value)] :: (← flowItems handles fuel false)
    else if ← accept .flowSequenceEnd then return []
    else
      let item ← node handles fuel .flow
      return item :: (← flowItems handles fuel false)

/-- The entries of a mapping in braces, up to its end. -/
def flowEntries (handles : List (String × String)) (fuel : Nat) (first : Bool) :
    Reader (List (Node × Node)) :=
  match fuel with
  | 0 => throw .malformed
  | fuel + 1 => do
    if ← accept .flowMappingEnd then return []
    if !first then demand .flowEntry
    if ← accept .key then
      let key ← nodeUnless handles fuel .flow [.value, .flowEntry, .flowMappingEnd]
      let value ← if ← accept .value then
          nodeUnless handles fuel .flow [.flowEntry, .flowMappingEnd]
        else pure empty
      return (key, value) :: (← flowEntries handles fuel false)
    else if ← accept .flowMappingEnd then return []
    else
      let key ← node handles fuel .flow
      return (key, empty) :: (← flowEntries handles fuel false)

end

/-- The directives before a document: at most one version, and each handle once. -/
def directives (handles : List (String × String)) (versioned : Bool) :
    List Token → Except Fault (List (String × String) × List Token)
  | .directive (.version major) :: ts =>
    if versioned || major ≠ 1 then .error .malformed else directives handles true ts
  | .directive (.tagPrefix handle root) :: ts =>
    if (handles.lookup handle).isSome then .error .malformed
    else directives ((handle, root) :: handles) versioned ts
  | .directive .other :: ts => directives handles versioned ts
  | ts => .ok (handles, ts)

def isDocumentEnd (t : Token) : Bool := t == .documentEnd

/-- Whether no node comes next. -/
def startsNoNode : List Token → Bool
  | [] => true
  | .documentStart :: _ => true
  | .documentEnd :: _ => true
  | .directive _ :: _ => true
  | _ => false

/-- The only document among the tokens, `none` if there is none. -/
def ofTokens (ts : List Token) : Except Fault (Option Node) := do
  if ts.isEmpty then return none
  let (declared, rest) ← directives [] false ts
  let handles := declared ++ [("!", "!"), ("!!", Tag.root)]
  let explicit := rest.length < ts.length || ts.head? == some .documentStart
  let rest ← match explicit, rest with
    | true, .documentStart :: rest => pure rest
    | true, _ => throw .malformed
    | false, rest => pure rest
  if explicit && startsNoNode rest then
    if rest.all isDocumentEnd then return some empty else throw .malformed
  let (n, s) ← (node handles (3 * rest.length + 3) .block).run ⟨rest, []⟩
  if s.tokens.all isDocumentEnd then return some n else throw .malformed

/-- The tree of a text. -/
def ofText (reading : Reading) (text : String) : Except Fault (Option Node) := do
  ofTokens (← Token.ofText reading text.toList)

end Node

end MarkdownVault.Yaml
