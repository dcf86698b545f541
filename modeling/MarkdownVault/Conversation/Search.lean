import MarkdownVault.Conversation.Entry
import MarkdownVault.Filter.Record

/-!
# Searching conversations

The result holds the conversations that meet all criteria given, the latest first. Times compare
as texts, a bound at its own length, so that a day takes in all of its hours. A conversation
without a time meets every bound and comes last.
-/

namespace MarkdownVault.Conversation

/-- What is asked for. An empty text asks for nothing, and neither does a count of zero. -/
structure Criteria where
  source : Option String
  query : Option String
  leastMessages : Option Int
  callout : Option String
  earliest : Option String
  latest : Option String
  folder : Option String

namespace Criteria

def none : Criteria := ⟨.none, .none, .none, .none, .none, .none, .none⟩

/-- Whether a criterion is met, if it is given at all. -/
def meets (criterion : Option String) (test : String → Bool) : Bool :=
  (criterion.filter (!·.isEmpty)).all test

def fromSource (source : Option Assistant) (name : String) : Bool :=
  source.any fun a => lower a.name == lower name

/-- Whether a path lies below a folder. The vault's own folder holds everything. -/
def below (folder path : String) : Bool :=
  let folder := mapChars (Text.dropEndWhile (· == '/')) (Path.normalize folder)
  folder.isEmpty || startsWith path (folder ++ "/")

def mentions (e : Entry) (query : String) : Bool :=
  hasPart (lower ((e.note.label? "title").getD "")) (lower query) ||
    hasPart (lower e.note.body) (lower query)

/-- The beginning of a time that a bound is compared with. -/
def cut (bound time : String) : String := takeChars bound.length time

def inFolder (c : Criteria) (path : String) : Bool := meets c.folder fun f => below f path

/-- Whether a conversation meets all criteria but the folder. -/
def accepts (c : Criteria) (e : Entry) : Bool :=
  meets c.source (fromSource e.summary.source) &&
    c.leastMessages.all (fun n => n == 0 || n ≤ Int.ofNat e.summary.messageCount) &&
    meets c.callout (fun t => e.summary.calloutTypes.contains (upper t)) &&
    meets c.earliest (fun day => e.created?.all fun time => textLe day (cut day time)) &&
    meets c.latest (fun day => e.created?.all fun time => textLe (cut day time) day) &&
    meets c.query (mentions e)

/-- The criteria as they were given; without a source all are meant. -/
def toValue (c : Criteria) : Value :=
  .ofProperties [("source", .text ((c.source.filter (!·.isEmpty)).getD "all")),
    ("query", labelValue c.query),
    ("minMessages", (c.leastMessages.map .int).getD .null),
    ("calloutType", labelValue c.callout), ("dateFrom", labelValue c.earliest),
    ("dateTo", labelValue c.latest), ("folder", labelValue c.folder)]

end Criteria

/-- Later ones first; those without a time are the earliest. -/
def isLater (a b : Entry) : Bool := textLe (b.created?.getD "") (a.created?.getD "")

/-- The first `limit` conversations that are accepted. -/
def search (c : Criteria) (limit : Int) (entries : List Entry) : List Entry :=
  ((entries.filter c.accepts).mergeSort isLater).take limit.toNat

structure SearchResult where
  criteria : Criteria
  found : List Entry

def foundValue (e : Entry) : Value :=
  .ofProperties [("path", .text e.note.path), ("title", .text e.note.title),
    ("source", assistantValue e.summary.source), ("created", labelValue e.created?),
    ("updated", labelValue e.updated?), ("messageCount", .int e.summary.messageCount),
    ("speakers", Record.textList e.summary.speakers), ("tags", Record.textList e.note.tags),
    ("calloutTypes", Record.textList e.summary.calloutTypes)]

def SearchResult.toValue (r : SearchResult) : Value :=
  .ofProperties [("resultCount", .int r.found.length), ("filters", r.criteria.toValue),
    ("conversations", .list (r.found.map foundValue))]

end MarkdownVault.Conversation
