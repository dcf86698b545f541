import MarkdownVault.Vault.Path
import MarkdownVault.Text.LetterCase

/-!
# Resolution of link targets

A link names a note by its name, its file name, or its path with or without the extension, in any
letter case. Of two notes with the same name the one indexed last is meant.
-/

namespace MarkdownVault

/-- The names of notes, in the order in which they were indexed. -/
structure LinkIndex where
  entries : List (String × String)
  deriving Repr

namespace LinkIndex

def dropNoteExtension (key : String) : String :=
  if endsWith key Path.noteExtension then
    mapChars (fun cs => cs.take (cs.length - Path.noteExtension.length)) key
  else key

/-- The four names of a note with a normalized path. -/
def namesOf (path : String) : List String :=
  [Path.stem path, Path.basename path, dropNoteExtension path, path].map lower

def ofPaths (paths : List String) : LinkIndex :=
  ⟨(paths.map Path.normalize).flatMap fun path => (namesOf path).map (·, path)⟩

/-- The note that has a name; the last one if there are several. -/
def find? (index : LinkIndex) (name : String) : Option String :=
  index.entries.reverse.lookup name

/-- How many names are known. -/
def size (index : LinkIndex) : Nat := (index.entries.map (·.1)).eraseDups.length

/-- A target without its heading. -/
def targetName (target : String) : String :=
  mapChars (fun cs => Text.trim (cs.takeWhile (· != '#'))) target

/-- The names under which a target is looked up, in order. -/
def candidates (name : String) : List String :=
  let key := lower (Path.normalize name)
  [key, dropNoteExtension key, Path.basename key]

/-- The note that a target means. A target that names nothing but a heading means none. -/
def resolve (index : LinkIndex) (target : String) : Option String :=
  let name := targetName target
  if name.isEmpty then none
  else (candidates name).findSome? fun key => (index.find? key).filter (!·.isEmpty)

end LinkIndex

end MarkdownVault
