import MarkdownVault.Number.Binary64
import MarkdownVault.Vault.Route

/-!
# Trees of files

A tree is a file or a folder with named children. Writing a file makes the missing folders above
it and changes nothing else; it fails where a folder stands, and below a file.
-/

namespace MarkdownVault

/-- What a file holds and when it was last changed, in milliseconds since 1970. -/
structure FileData where
  bytes : ByteArray
  modified : Binary64

/-- Every kind of line end becomes a line feed. -/
def Text.plainLines : List Char → List Char
  | '\r' :: '\n' :: cs => '\n' :: plainLines cs
  | c :: cs => (if c = '\r' then '\n' else c) :: plainLines cs
  | [] => []

/-- The contents as a text, if they are in UTF-8. -/
def FileData.text? (data : FileData) : Option String :=
  (String.fromUTF8? data.bytes).map (mapChars Text.plainLines)

theorem FileData.text?_toUTF8 (content : String) (modified : Binary64) :
    text? ⟨content.toUTF8, modified⟩ = some (mapChars Text.plainLines content) := by
  have hutf8 : String.fromUTF8? content.toUTF8 = some content := dif_pos content.isValidUTF8
  rw [text?, hutf8, Option.map_some]

inductive Tree where
  | file (data : FileData)
  | folder (children : List (String × Tree))

namespace Tree

def isFolder : Tree → Bool
  | .folder _ => true
  | .file _ => false

def find? : Route → Tree → Option Tree
  | [], t => some t
  | name :: route, .folder children => (children.lookup name).bind (find? route)
  | _ :: _, .file _ => none

/-- The contents of the file at the end of a route. -/
def read? (route : Route) (t : Tree) : Option FileData :=
  match t.find? route with
  | some (.file data) => some data
  | _ => none

/-- A file below folders that hold nothing else. -/
def chain (data : FileData) : Route → Tree
  | [] => .file data
  | name :: route => .folder [(name, chain data route)]

/-- Empty folders, one in the other. -/
def folderChain : Route → Tree
  | [] => .folder []
  | name :: route => .folder [(name, folderChain route)]

/-- The children with one of them put in place of the old one, or at the end. -/
def putChild (name : String) (t : Tree) : List (String × Tree) → List (String × Tree)
  | [] => [(name, t)]
  | c :: cs => if c.1 = name then (name, t) :: cs else c :: putChild name t cs

/-- Writes a file. -/
def write? (data : FileData) : Route → Tree → Option Tree
  | [], .file _ => some (.file data)
  | [], .folder _ => none
  | _ :: _, .file _ => none
  | name :: route, .folder children =>
    match children.lookup name with
    | none => some (.folder (putChild name (chain data route) children))
    | some t => (write? data route t).map fun t => .folder (putChild name t children)

/-- The tree without what stands at the end of a route; `none` removes the tree itself. -/
def remove : Route → Tree → Option Tree
  | [], _ => none
  | _ :: _, .file data => some (.file data)
  | name :: route, .folder children =>
    match children.lookup name with
    | none => some (.folder children)
    | some t => match remove route t with
      | none => some (.folder (children.filter fun c => c.1 != name))
      | some t => some (.folder (putChild name t children))

/-! ## Whole trees -/

/-- The tree with another one at the end of a route, in place of what stands there or in the way. -/
def mount (other : Tree) : Route → Tree → Tree
  | [], _ => other
  | name :: route, .folder children =>
    .folder (putChild name (mount other route ((children.lookup name).getD (.folder []))) children)
  | name :: route, .file _ => .folder [(name, mount other route (.folder []))]

mutual

/-- All files with their routes, hidden ones as well. -/
def everyFile : Tree → List (Route × FileData)
  | .file data => [([], data)]
  | .folder children => everyFileAmong children

def everyFileAmong : List (String × Tree) → List (Route × FileData)
  | [] => []
  | (name, t) :: cs => (everyFile t).map (fun f => (name :: f.1, f.2)) ++ everyFileAmong cs

end

/-- The files that are not in an old tree with the same contents. -/
def changes (old new : Tree) : List (Route × FileData) :=
  new.everyFile.filter fun f => (old.read? f.1).all fun data => data.bytes != f.2.bytes

/-! ## Listings -/

/-- Folders that are passed over besides the hidden ones. -/
def skippedFolders : List String := ["node_modules"]

/-- Names that no listing shows, nor anything below them. -/
def isSkipped (name : String) : Bool := startsWith name "." || skippedFolders.contains name

mutual

/-- The files below a folder, each with its route from there. -/
def files : Tree → List (Route × FileData)
  | .file data => [([], data)]
  | .folder children => filesAmong children

def filesAmong : List (String × Tree) → List (Route × FileData)
  | [] => []
  | (name, t) :: cs =>
    (if isSkipped name then [] else (files t).map fun f => (name :: f.1, f.2)) ++ filesAmong cs

end

mutual

/-- The folders below a folder, each with its route from there. -/
def folders : Tree → List Route
  | .file _ => []
  | .folder children => foldersAmong children

/-- The folders among some children and below them. -/
def foldersAmong : List (String × Tree) → List Route
  | [] => []
  | (name, t) :: cs =>
    (if isSkipped name || !t.isFolder then []
      else [name] :: (folders t).map (name :: ·)) ++ foldersAmong cs

end

end Tree

end MarkdownVault
