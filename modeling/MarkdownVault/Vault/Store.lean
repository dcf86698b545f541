import MarkdownVault.Vault.Backend
import MarkdownVault.Vault.Disk
import MarkdownVault.Vault.Memory

/-!
# Stores

A vault keeps its files on disk or in memory. Both kinds answer the same requests, for paths that
are texts; what an answer leaves behind, a listing or a mark of what was read, stays in the store.
-/

namespace MarkdownVault

inductive Store where
  | disk (d : Disk)
  | memory (m : Memory)

/-- What a vault tells about itself. -/
structure VaultSummary where
  name : String
  path : String
  noteCount : Nat
  fileCount : Nat
  deriving Repr

namespace Store

def list (now : Binary64) (directory : Option String) :
    Store → Except Failure (List FileEntry) × Store
  | disk d =>
    let (result, d) := d.list now (directory.map Spelling.ofText)
    (result, disk d)
  | memory m => (.ok (m.list directory), memory m)

def folders (directory : Option String) : Store → Except Failure (List String)
  | disk d => d.folders (directory.map Spelling.ofText)
  | memory m => .ok m.folders

def contains (path : String) : Store → Except Failure Bool
  | disk d => d.contains path
  | memory m => .ok (m.contains path)

def read (path : String) : Store → Except Failure String × Store
  | disk d => (d.read path, disk d)
  | memory m => let (result, m) := m.read path; (result, memory m)

/-- The path under which a note that is read is known. -/
def notePath (path : String) : Store → String
  | disk _ => Path.normalize path
  | memory _ => path

def write (path content : String) : Store → Except Failure Unit × Store
  | disk d => let (result, d) := d.write path content; (result, disk d)
  | memory m => (.ok (), memory (m.write path content))

def name : Store → String
  | disk d => d.name
  | memory m => m.name

def place : Store → String
  | disk d => "/" ++ d.root.text
  | memory m => "memory://" ++ m.name

/-- Whether a listed file counts as a note. -/
def countsAsNote : Store → FileEntry → Bool
  | disk _, f => f.isNote
  | memory _, f => endsWith f.path Path.noteExtension

def summary (s : Store) (files : List FileEntry) : VaultSummary :=
  ⟨s.name, s.place, (files.filter s.countsAsNote).length, files.length⟩

/-- Drops what was kept to answer faster. -/
def dropListings : Store → Store
  | disk d => disk d.dropListings
  | memory m => memory m

instance : Backend Store := ⟨list, read, notePath⟩

end Store

end MarkdownVault
