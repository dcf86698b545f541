import MarkdownVault.Note
import MarkdownVault.Vault.Path
import MarkdownVault.Filter.Record

/-!
# Files of a vault
-/

namespace MarkdownVault

/-- Times are milliseconds since 1970. -/
structure FileStat where
  size : Int
  created : Binary64
  modified : Binary64
  deriving Repr

def FileStat.empty : FileStat := ⟨0, Binary64.zero false, Binary64.zero false⟩

/-- A file in a listing: its path, and its name and extension apart. -/
structure FileEntry where
  path : String
  name : String
  extension : String
  stat : FileStat
  deriving Repr

def FileEntry.ofPath (path : String) (stat : FileStat) : FileEntry :=
  let name := Path.basename path
  ⟨path, Path.stemOf name, Path.extensionOf name, stat⟩

def FileEntry.isNote (f : FileEntry) : Bool := f.extension == Path.noteExtension
def FileEntry.isBase (f : FileEntry) : Bool := f.extension == Path.baseExtension

/-- What filters and views can ask of a listed note. -/
def Record.ofNote (file : FileEntry) (note : Note) : Record :=
  { path := file.path
    name := file.name
    folder := Path.folder file.path
    extension := file.extension
    size := file.stat.size
    created := file.stat.created
    modified := file.stat.modified
    tags := note.tags
    links := note.links
    properties := note.frontMatter }

end MarkdownVault
