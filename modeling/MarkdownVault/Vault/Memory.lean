import MarkdownVault.Failure
import MarkdownVault.Vault.File

/-!
# Vaults in memory

A vault held in memory lists its files in the order in which they were added. Paths are taken as
they are. It keeps track of what was read, and reading some of its files can be made to fail.
-/

namespace MarkdownVault

/-- What is known of a file besides its contents; the rest is made up. -/
structure GivenStat where
  size : Option Int
  created : Option Binary64
  modified : Option Binary64

structure Memory where
  name : String
  /-- Paths and contents; every path once. -/
  files : List (String × String)
  stats : List (String × GivenStat)
  failing : List String
  /-- All paths that were read, the last one first. -/
  reads : List String

namespace Memory

def put (path content : String) : List (String × String) → List (String × String)
  | [] => [(path, content)]
  | f :: fs => if f.1 = path then (path, content) :: fs else f :: put path content fs

/-- The time of the first file; each further one is a millisecond younger. -/
def firstTime : Nat := 1700000000000

def statOf (m : Memory) (index : Nat) (path content : String) : FileStat :=
  let time := Binary64.ofNat (firstTime + index)
  match m.stats.lookup path with
  | none => ⟨content.utf8ByteSize, time, time⟩
  | some given => {
      size := given.size.getD content.utf8ByteSize
      created := given.created.getD time
      modified := given.modified.getD time }

def entries (m : Memory) : List FileEntry :=
  m.files.zipIdx.map fun ((path, content), i) => .ofPath path (m.statOf i path content)

/-- What the paths in a folder begin with. -/
def folderStart (directory : Option String) : String :=
  match directory.filter (!·.isEmpty) with
  | none => ""
  | some folder => mapChars (Text.trimChar '/') folder ++ "/"

def list (directory : Option String) (m : Memory) : List FileEntry :=
  m.entries.filter fun f => startsWith f.path (folderStart directory)

/-- The folders that hold files themselves. -/
def folders (m : Memory) : List String :=
  ((m.files.map fun f => Path.dirname f.1).eraseDups.filter (!·.isEmpty)).mergeSort textLe

def contains (m : Memory) (path : String) : Bool := (m.files.lookup path).isSome

def read (path : String) (m : Memory) : Except Failure String × Memory :=
  let result := if m.failing.contains path then .error .system
    else match m.files.lookup path with
      | some content => .ok content
      | none => .error (.notFound "File" path)
  (result, { m with reads := path :: m.reads })

def write (path content : String) (m : Memory) : Memory :=
  { m with files := put path content m.files }

end Memory

end MarkdownVault
