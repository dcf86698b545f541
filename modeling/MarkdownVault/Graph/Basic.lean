import MarkdownVault.Graph.Resolution
import MarkdownVault.Vault.File

/-!
# The link graph of a vault

Every note is a node; its links lead to the notes that they resolve to, and the same edges are
kept backwards. Links that resolve to nothing are collected apart.
-/

namespace MarkdownVault

structure GraphNode where
  path : String
  title : String
  tags : List String
  /-- The notes that this one links to, each once. -/
  outgoing : List String
  /-- The notes that link to this one, each once. -/
  incoming : List String
  embeds : List String
  deriving DecidableEq, Repr

structure Graph where
  nodes : List GraphNode
  unresolved : List String
  deriving DecidableEq, Repr

/-- A note that was read, with its entry in the listing. -/
structure ReadNote where
  file : FileEntry
  content : String
  frontMatter : Properties
  body : String

/-- The note that the text of a listed file is. -/
def ReadNote.ofText (file : FileEntry) (content : String) : Except Yaml.Fault ReadNote := do
  let (frontMatter, body) ← Note.frontMatterOf content
  return ⟨file, content, frontMatter, body⟩

namespace Graph

def find? (g : Graph) (path : String) : Option GraphNode := g.nodes.find? (·.path == path)

def has (g : Graph) (path : String) : Bool := g.nodes.any (·.path == path)

/-- The nodes with the given paths; other paths are passed over. -/
def nodesAt (g : Graph) (paths : List String) : List GraphNode := paths.filterMap g.find?

def outgoing (g : Graph) (path : String) : List GraphNode :=
  ((g.find? path).map fun n => g.nodesAt n.outgoing).getD []

def incoming (g : Graph) (path : String) : List GraphNode :=
  ((g.find? path).map fun n => g.nodesAt n.incoming).getD []

/-! ## Building a graph -/

/-- The title in the front matter, or else the name of the file. -/
def titleOf (note : ReadNote) : String :=
  match note.frontMatter.lookup "title" with
  | some (.text title) => if isBlankText title then note.file.name else title
  | _ => note.file.name

/-- The links of a note that name more than a heading. -/
def namingLinks (note : ReadNote) : List String :=
  (Note.linksOf note.body).filter fun raw => !(LinkIndex.targetName raw).isEmpty

def targetsOf (index : LinkIndex) (note : ReadNote) : List String :=
  ((namingLinks note).filterMap index.resolve).eraseDups

def unresolvedOf (index : LinkIndex) (note : ReadNote) : List String :=
  (namingLinks note).filter fun raw => (index.resolve raw).isNone

/-- The notes among some with their targets that link to a path. -/
def sourcesOf (edges : List (String × List String)) (path : String) : List String :=
  (edges.filter fun e => e.2.contains path).map (·.1)

def nodeOf (edges : List (String × List String)) (note : ReadNote) (targets : List String) :
    GraphNode :=
  { path := note.file.path
    title := titleOf note
    tags := Note.tagsOf note.content note.frontMatter
    outgoing := targets
    incoming := sourcesOf edges note.file.path
    embeds := Note.embedsOf note.body }

/-- The graph of the notes read, `none` if some link leads to a path that no note has. That
happens only when a listed path is not normalized. -/
def ofNotes? (notes : List ReadNote) : Option Graph :=
  let index := LinkIndex.ofPaths (notes.map (·.file.path))
  let edges := notes.map fun n => (n.file.path, targetsOf index n)
  let paths := notes.map (·.file.path)
  if edges.all fun e => e.2.all paths.contains then
    some {
      nodes := notes.map fun n => nodeOf edges n (targetsOf index n)
      unresolved := (notes.flatMap (unresolvedOf index)).eraseDups }
  else none

end Graph

end MarkdownVault
