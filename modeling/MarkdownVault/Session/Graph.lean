import MarkdownVault.Graph.Answer
import MarkdownVault.Session

/-!
# Notes and links

Operations on single notes and on the link graph. A note is named by its path from the root of
the vault; the extension may be left out.
-/

namespace MarkdownVault.Session

/-- The path of the note that is meant. -/
def notePath (path : String) : String := Path.ensureNote (Path.normalize path)

def note (vault : Option String) (path : String) : SessionM Note :=
  on vault (Vault.readNote (notePath path))

/-- The path of a note that is in the graph. -/
def nodePath (g : Graph) (path : String) : Except Failure String :=
  let path := notePath path
  if g.has path then .ok path else .error (.notFound "Note" path)

def outgoing (vault : Option String) (path : String) : SessionM LinkedNotes := do
  let g ← on vault Vault.graph
  let path ← nodePath g path
  return ⟨path, g.outgoing path⟩

def incoming (vault : Option String) (path : String) : SessionM LinkedNotes := do
  let g ← on vault Vault.graph
  let path ← nodePath g path
  return ⟨path, g.incoming path⟩

/-- The depth of a neighbourhood and the number of its notes, unless others are given. -/
def standardDepth : Int := 2
def standardNeighbors : Int := 50

def neighbors (vault : Option String) (path : String) (depth : Int) (direction : String)
    (limit : Int) : SessionM Neighborhood := do
  atLeastOne "depth" depth
  atLeastOne "max_nodes" limit
  let g ← on vault Vault.graph
  let path ← nodePath g path
  match LinkDirection.ofText? direction with
  | none => throw (.unknownDirection direction)
  | some d => return ⟨path, depth, d, g.neighbors path depth d limit⟩

/-- The length of paths that are looked for, unless another one is given. -/
def standardPathDepth : Int := 10

/-- How many shortest paths are told. -/
def pathLimit : Int := 100

def connection (vault : Option String) (source target : String) (depth : Int) :
    SessionM Connection := do
  atLeastOne "max_depth" depth
  let g ← on vault Vault.graph
  let source ← nodePath g source
  let target ← nodePath g target
  return ⟨source, target, g.shortestPaths source target depth pathLimit⟩

def orphans (vault : Option String) : SessionM (List GraphNode) := do
  return (← on vault Vault.graph).orphans

def statistics (vault : Option String) : SessionM GraphStatistics := do
  return (← on vault Vault.graph).statistics

end MarkdownVault.Session
