import MarkdownVault.Base.Query
import MarkdownVault.Vault.File

/-!
# Answers about bases
-/

namespace MarkdownVault

/-- A base with the path of its file. -/
structure BaseFile where
  path : String
  base : Base

def BaseFile.toValue (f : BaseFile) : Value :=
  .ofProperties [("path", .text f.path), ("definition", f.base.toValue),
    ("viewCount", .int f.base.views.length), ("hasFilters", .bool f.base.hasFilters),
    ("hasFormulas", .bool f.base.hasFormulas)]

/-- A base in a listing. -/
structure BaseEntry where
  file : FileEntry
  modified : Moment

def BaseEntry.toValue (e : BaseEntry) : Value :=
  .ofProperties [("path", .text e.file.path), ("name", .text e.file.name),
    ("size", .int e.file.stat.size), ("modified", .text e.modified.text)]

def Row.toValue (r : Row) : Value :=
  .ofProperties [("path", .text r.path), ("name", .text r.name),
    ("properties", .ofProperties r.properties)]

def QueryResult.toValue (r : QueryResult) : Value :=
  .ofProperties [("documents", .list (r.rows.map Row.toValue)), ("total", .int r.total),
    ("view", r.view.toValue)]

end MarkdownVault
