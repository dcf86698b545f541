import MarkdownVault.Vault.File
import MarkdownVault.Vault.Spelling
import MarkdownVault.Vault.Steps

/-!
# Vaults on disk

A vault is a folder of a tree of files. Paths are followed lexically from that folder, and a path
that leads out of it is refused. Listings are kept for a while; a write through the vault drops
them, changes made behind its back show once they are too old.

Everything in the tree can be reached, and there is room for all that is written. Of what is not
there, names may be too long for the file system.
-/

namespace MarkdownVault

/-- A listing and the time at which it was made. -/
structure Listing where
  time : Binary64
  files : List FileEntry

namespace Listing

/-- Seconds for which a listing is used again. -/
def lifetime : Binary64 := Binary64.ofNat 30

def isFresh (now : Binary64) (l : Listing) : Bool := (now.add l.time.negate).lt lifetime

end Listing

structure Disk where
  name : String
  /-- The route to the vault in the tree. -/
  root : Route
  tree : Tree
  /-- The time of change that a written file gets. -/
  stamp : Binary64
  /-- Listings by the normalized path of their folder. -/
  listings : List (String × Listing)

namespace Disk

/-- Where a path leads, as a route from the vault's folder. -/
def locate (d : Disk) (path : Spelling) : Except Failure Route := do
  let text ← path.encode
  match Route.below? d.root (d.root.follow (Path.normalize text)) with
  | some route => return route
  | none => throw (.outsideVault text d.name)

def find? (d : Disk) (route : Route) : Option Tree := d.tree.find? (d.root ++ route)

def isFile (d : Disk) (route : Route) : Bool := (d.tree.read? (d.root ++ route)).isSome

/-- Names that the file system takes. Those on the way to the vault's folder are in use. -/
def takes (d : Disk) (name : String) : Bool := Tree.isShort name || d.root.contains name

/-- Whether the file system refuses to look for what is not there. -/
def refuses (d : Disk) (route : Route) : Bool :=
  !Route.fits (d.root ++ route) || d.tree.stumbles d.takes (d.root ++ route)

/-- The failure of looking for what is not there, unless the file system refuses to look. -/
def absent (d : Disk) (route : Route) (f : Failure) : Failure :=
  if d.refuses route then .system else f

/-! ## Listings -/

/-- Like any other file, but a dot at the end of a name starts no extension. -/
def entryOf (path name : String) (data : FileData) : FileEntry :=
  let stat : FileStat := ⟨data.bytes.size, data.modified, data.modified⟩
  if endsWith name "." then ⟨path, name, "", stat⟩ else .ofPath path stat

def entryAt (start : Route) (f : Route × FileData) : FileEntry :=
  entryOf (start ++ f.1).text (f.1.getLastD "") f.2

/-- The files below a folder of the vault, sorted by path. -/
def filesBelow (start : Route) (folder : Tree) : List FileEntry :=
  (folder.files.map (entryAt start)).mergeSort fun a b => textLe a.path b.path

/-- Where a listing starts, at the vault's folder if no path is given. -/
def startAt (d : Disk) (key : String) : Except Failure Route :=
  if key.isEmpty then .ok [] else d.locate key

/-- A folder of the vault and the route to it. -/
def folderAt (d : Disk) (key : String) : Except Failure (Route × Tree) := do
  let route ← d.startAt key
  match d.find? route with
  | some (.folder children) => return (route, .folder children)
  | _ => throw (d.absent route (.notFound "Directory" key))

/-- The normalized path of a folder, empty for the whole vault. -/
def directoryKey : Option Spelling → Except Failure String
  | none => .ok ""
  | some path => path.text.map Path.normalize

def keep (d : Disk) (key : String) (listing : Listing) : Disk :=
  { d with listings := (key, listing) :: d.listings.filter fun l => l.1 != key }

/-- The files below a folder, from a listing that was kept if it is fresh. -/
def list (now : Binary64) (directory : Option Spelling) (d : Disk) :
    Except Failure (List FileEntry) × Disk :=
  match directoryKey directory with
  | .error f => (.error f, d)
  | .ok key => match (d.listings.lookup key).filter (Listing.isFresh now) with
    | some kept => (.ok kept.files, d)
    | none => match d.folderAt key with
      | .error f => (.error f, d)
      | .ok (route, folder) =>
        let files := filesBelow route folder
        (.ok files, d.keep key ⟨now, files⟩)

/-- The folders below a folder, sorted by path. -/
def folders (directory : Option Spelling) (d : Disk) : Except Failure (List String) := do
  let (route, folder) ← d.folderAt (← directoryKey directory)
  return (folder.folders.map fun r => (route ++ r).text).mergeSort textLe

def dropListings (d : Disk) : Disk := { d with listings := [] }

/-! ## Files -/

def contains (d : Disk) (path : Spelling) : Except Failure Bool := do
  let route ← d.locate path
  if d.isFile route then return true
  else if d.refuses route then throw .system
  else return false

def read (d : Disk) (path : Spelling) : Except Failure String := do
  let route ← d.locate path
  match d.tree.read? (d.root ++ route) with
  | none => throw (d.absent route (.notFound "File" (Path.normalize path.plain)))
  | some data => match data.text? with
    | none => throw .notUtf8
    | some text => return text

/-- The note that a file holds, under its normalized path. -/
def readNote (path : Spelling) (d : Disk) : Except Failure Note := do
  let content ← d.read path.normalize
  (Note.ofText path.normalize.plain content).mapError Failure.metadata

/-- Writes a string as it is. The file is opened before the string is encoded, and listings are
dropped at the end, so that a string that is no text leaves an empty file and all listings. -/
def write (path : Spelling) (content : Loose) (d : Disk) : Except Failure Unit × Disk :=
  match d.locate path with
  | .error f => (.error f, d)
  | .ok route => match d.tree.openFile d.takes d.stamp (d.root ++ route) with
    | (.error _, tree) => (.error .system, { d with tree })
    | (.ok (), opened) => match content.bytes? with
      | none => (.error .unencodable, { d with tree := opened })
      | some bytes =>
        let (_, tree) := opened.putFile d.takes ⟨bytes, d.stamp⟩ (d.root ++ route)
        (.ok (), { d with tree }.dropListings)

end Disk

end MarkdownVault
