import MarkdownVault.Graph.Basic
import MarkdownVault.Number.Total

/-!
# Statistics of a graph
-/

namespace MarkdownVault

structure LinkCount where
  path : String
  count : Nat
  deriving DecidableEq, Repr

structure GraphStatistics where
  nodeCount : Nat
  edgeCount : Nat
  orphanCount : Nat
  unresolvedCount : Nat
  averageOutgoing : Binary64
  averageIncoming : Binary64
  /-- The notes that are linked to most often. -/
  mostLinked : List LinkCount
  /-- The notes that link most. -/
  mostLinking : List LinkCount

namespace Graph

def orphans (g : Graph) : List GraphNode :=
  g.nodes.filter fun n => n.outgoing.isEmpty && n.incoming.isEmpty

/-- The length of the two rankings. -/
def rankingLimit : Nat := 10

/-- The notes with the greatest counts, in order of the graph where counts are equal. -/
def ranking (g : Graph) (count : GraphNode → Nat) : List LinkCount :=
  ((g.nodes.mergeSort fun a b => count b ≤ count a).take rankingLimit).map fun n =>
    ⟨n.path, count n⟩

/-- A quotient in hundredths, zero when there is nothing to divide by. -/
def average (total count : Nat) : Binary64 :=
  if count = 0 then Binary64.zero false else (Binary64.ratio total count).roundToHundredths

def statistics (g : Graph) : GraphStatistics :=
  let out := total (g.nodes.map fun n => n.outgoing.length)
  let into := total (g.nodes.map fun n => n.incoming.length)
  { nodeCount := g.nodes.length
    edgeCount := out
    orphanCount := g.orphans.length
    unresolvedCount := g.unresolved.length
    averageOutgoing := average out g.nodes.length
    averageIncoming := average into g.nodes.length
    mostLinked := g.ranking fun n => n.incoming.length
    mostLinking := g.ranking fun n => n.outgoing.length }

end Graph

end MarkdownVault
