import MarkdownVault.Base.Answer
import MarkdownVault.Base.Printer
import MarkdownVault.Command.Table
import MarkdownVault.Conversation.Census
import MarkdownVault.Conversation.Search
import MarkdownVault.Graph.Answer

/-!
# Answers for the eye

Each answer is a list of texts, every one of which is followed by a line feed.
-/

namespace MarkdownVault.Screen

def natText (n : Nat) : String := Value.natText n

/-- Paths get more room than other columns. -/
def pathLimit : Int := 60

def table (columns : List String) (rows : List Properties) : String :=
  Table.text (Table.columns columns [("path", pathLimit)]) rows

def nodeRow (n : GraphNode) : Properties := [("path", .text n.path), ("title", .text n.title)]

/-- A table of notes, or a line if there are none. -/
def nodes (ns : List GraphNode) (none : String) : List String :=
  if ns.isEmpty then [none] else [table ["path", "title"] (ns.map nodeRow)]

def outgoing (l : LinkedNotes) : List String := nodes l.notes ("No outgoing links from " ++ l.path)
def incoming (l : LinkedNotes) : List String := nodes l.notes ("No backlinks to " ++ l.path)
def orphans (ns : List GraphNode) : List String := nodes ns "No orphan notes."

def countedRow (n : GraphNode) : Properties :=
  nodeRow n ++ [("out", .int n.outgoing.length), ("in", .int n.incoming.length)]

def neighborhood (n : Neighborhood) : List String :=
  if n.notes.isEmpty then ["No neighbors found for " ++ n.path]
  else [table ["path", "title", "out", "in"] (n.notes.map countedRow)]

def connection (c : Connection) (depth : Int) : List String :=
  if c.paths.isEmpty then
    ["No path between " ++ c.source ++ " and " ++ c.target ++ " within " ++ Value.intText depth ++
      " hops"]
  else c.paths.map (joinWith " -> ")

/-- A number at the right end of a field. -/
def padStart (width : Nat) (s : String) : String :=
  String.ofList (List.replicate (width - s.length) ' ') ++ s

def ranking (title : String) (counts : List LinkCount) : List String :=
  if counts.isEmpty then []
  else ("\n" ++ title ++ ":") :: counts.map fun c =>
    "  " ++ padStart 4 (natText c.count) ++ "  " ++ c.path

def statistics (s : GraphStatistics) : List String :=
  ["Notes:            " ++ natText s.nodeCount,
    "Links:            " ++ natText s.edgeCount,
    "Orphans:          " ++ natText s.orphanCount,
    "Unresolved links: " ++ natText s.unresolvedCount,
    "Avg outgoing:     " ++ s.averageOutgoing.text,
    "Avg incoming:     " ++ s.averageIncoming.text,
    "Build time:       " ++ GraphStatistics.buildTime.text ++ " ms"] ++
    ranking "Most linked" s.mostLinked ++ ranking "Most linking" s.mostLinking

/-- A line with a title and items, unless there are none. -/
def listed (title : String) (items : List String) : List String :=
  if items.isEmpty then [] else [title ++ ": " ++ joinWith ", " items]

def note (n : Note) : List String :=
  ["# " ++ n.path] ++ listed "Tags" n.tags ++ listed "Links" n.links ++
    n.fields.map (fun f => f.key ++ ": " ++ f.value) ++ ["", n.body]

def bases (bs : List BaseEntry) : List String :=
  if bs.isEmpty then ["No bases found."]
  else
    let row (b : BaseEntry) : Properties :=
      [("path", .text b.file.path), ("name", .text b.file.name), ("modified", .text b.modified.text)]
    [Table.text (Table.columns ["path", "name", "modified"] []) (bs.map row)]

def viewCount (f : BaseFile) : String := natText f.base.views.length ++ " views"

def base (f : BaseFile) : List String :=
  ["# " ++ f.path ++ " (" ++ viewCount f ++ ")", f.base.text]

def created (f : BaseFile) : List String := ["Created " ++ f.path]

def createdWithViews (f : BaseFile) : List String :=
  ["Created " ++ f.path ++ " (" ++ viewCount f ++ ")"]

/-- The columns of a view that names none. -/
def standardColumns : List String := ["file.name", "file.folder"]

def queryColumns (v : View) : List String :=
  match v.columns.getD [] with
  | [] => standardColumns
  | columns => columns

def queryRow (r : Row) : Properties :=
  if (r.properties.lookup "path").isSome then r.properties
  else ("path", .text r.path) :: r.properties

def query (r : QueryResult) : List String :=
  (r.view.name ++ ": " ++ natText r.rows.length ++ " of " ++ natText r.total) ::
    if r.rows.isEmpty then []
    else [Table.text (Table.columns (queryColumns r.view) []) (r.rows.map queryRow)]

open Conversation

def foundRow (e : Entry) : Properties :=
  [("path", .text e.note.path),
    ("source", .text ((e.summary.source.map Assistant.name).getD "")),
    ("created", .text (e.created?.getD "")), ("messages", .int e.summary.messageCount)]

def search (r : SearchResult) : List String :=
  if r.found.isEmpty then ["No conversations found."]
  else [table ["path", "source", "created", "messages"] (r.found.map foundRow)]

def analysis (a : Analysis) : List String :=
  match a.entry with
  | none => [a.path ++ " does not appear to be an AI conversation export."]
  | some e =>
    let count (role : Role) : String := natText (a.countOf role)
    ["# " ++ e.note.title ++ " (" ++ Census.sourceName e ++ ")",
      "Messages: " ++ natText a.messages.length ++ " (user " ++ count .user ++ ", assistant " ++
        count .assistant ++ ")",
      "Words: " ++ natText a.wordCount ++ " (avg " ++ Value.intText a.meanLength ++
        " per message)"] ++
      if a.calloutTypes.isEmpty then []
      else ["Callouts: " ++ natText a.calloutCount ++ " (" ++ joinWith ", " a.calloutTypes ++ ")"]

/-- Counts sorted by what is counted. -/
def counts (title : String) (cs : List (String × Nat)) : List String :=
  if cs.isEmpty then []
  else ("\n" ++ title ++ ":") :: (cs.mergeSort fun a b => textLe a.1 b.1).map fun c =>
    "  " ++ c.1 ++ ": " ++ natText c.2

def census (c : Census) : List String :=
  ["Conversations: " ++ natText c.conversationCount,
    "Messages:      " ++ natText c.messageCount ++ " (avg " ++ Value.intText c.meanMessages ++
      ")"] ++
    counts "By source" c.bySource ++ counts "By month" c.byMonth

end MarkdownVault.Screen
