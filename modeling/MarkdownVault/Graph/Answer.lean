import MarkdownVault.Graph.Statistics
import MarkdownVault.Graph.Traversal
import MarkdownVault.Filter.Record

/-!
# Answers about the graph
-/

namespace MarkdownVault

/-- How a node is shown; the numbers of its links only where they are asked for. -/
def GraphNode.summary (counted : Bool) (n : GraphNode) : Value :=
  let count (paths : List String) : Value := if counted then .int paths.length else .null
  .ofProperties [("path", .text n.path), ("title", .text n.title),
    ("tags", Record.textList n.tags), ("outgoingCount", count n.outgoing),
    ("incomingCount", count n.incoming)]

def summaries (counted : Bool) (nodes : List GraphNode) : Value :=
  .list (nodes.map (GraphNode.summary counted))

/-- The notes at the other ends of the links of a note. -/
structure LinkedNotes where
  path : String
  notes : List GraphNode

namespace LinkedNotes

def outgoingValue (l : LinkedNotes) : Value :=
  .ofProperties [("path", .text l.path), ("outgoingCount", .int l.notes.length),
    ("links", summaries false l.notes)]

def incomingValue (l : LinkedNotes) : Value :=
  .ofProperties [("path", .text l.path), ("backlinkCount", .int l.notes.length),
    ("backlinks", summaries false l.notes)]

end LinkedNotes

structure Neighborhood where
  path : String
  depth : Int
  direction : LinkDirection
  notes : List GraphNode

def Neighborhood.toValue (n : Neighborhood) : Value :=
  .ofProperties [("path", .text n.path), ("depth", .int n.depth),
    ("direction", .text n.direction.text), ("neighborCount", .int n.notes.length),
    ("neighbors", summaries true n.notes)]

/-- The shortest ways from one note to another. -/
structure Connection where
  source : String
  target : String
  paths : List (List String)

def Connection.toValue (c : Connection) : Value :=
  let steps (path : List String) : Value :=
    .ofProperties [("length", .int path.length), ("steps", Record.textList path)]
  .ofProperties [("from", .text c.source), ("to", .text c.target),
    ("pathsFound", .int c.paths.length),
    ("shortestLength", (c.paths.head?.map fun path => .int path.length).getD .null),
    ("paths", .list (c.paths.map steps))]

def orphansValue (nodes : List GraphNode) : Value :=
  .ofProperties [("orphanCount", .int nodes.length), ("orphans", summaries false nodes)]

namespace GraphStatistics

def countValue (incoming outgoing : Value) (path : String) : Value :=
  .ofProperties [("path", .text path), ("incomingCount", incoming), ("outgoingCount", outgoing)]

/-- The time that building took is not measured and counts as zero. -/
def buildTime : Binary64 := Binary64.zero false

def toValue (s : GraphStatistics) : Value :=
  .ofProperties [("totalNodes", .int s.nodeCount), ("totalEdges", .int s.edgeCount),
    ("orphanCount", .int s.orphanCount), ("unresolvedCount", .int s.unresolvedCount),
    ("avgOutgoing", .float s.averageOutgoing), ("avgIncoming", .float s.averageIncoming),
    ("mostLinked", .list (s.mostLinked.map fun c => countValue (.int c.count) .null c.path)),
    ("mostLinking", .list (s.mostLinking.map fun c => countValue .null (.int c.count) c.path)),
    ("buildTimeMs", .float buildTime)]

end GraphStatistics

end MarkdownVault
