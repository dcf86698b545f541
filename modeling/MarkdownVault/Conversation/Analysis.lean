import MarkdownVault.Conversation.Entry
import MarkdownVault.Filter.Record
import MarkdownVault.Number.Total

/-!
# Analysis of one conversation
-/

namespace MarkdownVault.Conversation

/-- A quotient rounded to a whole number, zero when there is nothing to divide by. -/
def meanOf (total count : Nat) : Int := if count = 0 then 0 else (Binary64.ratio total count).round

/-- The messages of a conversation; of other notes nothing but the path is told. -/
structure Analysis where
  path : String
  entry : Option Entry
  messages : List Message

namespace Analysis

def ofNote (n : Note) : Analysis :=
  let summary := detect n.content n.frontMatter
  if summary.isConversation then ⟨n.path, some ⟨n, summary⟩, Conversation.messages n.body⟩
  else ⟨n.path, none, []⟩

def countOf (role : Role) (a : Analysis) : Nat := (a.messages.filter (·.role == role)).length

def wordCount (a : Analysis) : Nat :=
  total (a.messages.map fun m => (Text.words m.content.toList).length)

def meanLength (a : Analysis) : Int := meanOf a.wordCount a.messages.length

def calloutCount (a : Analysis) : Nat := total (a.messages.map (·.callouts.length))

def source? (a : Analysis) : Option Assistant := a.entry.bind (·.summary.source)

def calloutTypes (a : Analysis) : List String :=
  (a.entry.map (·.summary.calloutTypes)).getD []

def calloutValue (c : Callout) : Value :=
  .ofProperties [("type", .text c.type), ("title", .text c.title), ("content", .text c.content)]

def messageValue (m : Message) : Value :=
  .ofProperties [("role", .text m.role.text), ("speaker", .text m.speaker),
    ("content", .text m.content), ("callouts", .list (m.callouts.map calloutValue))]

def toValue (a : Analysis) : Value :=
  .ofProperties [("path", .text a.path), ("isConversation", .bool a.entry.isSome),
    ("source", assistantValue a.source?),
    ("title", labelValue (a.entry.map (·.note.title))),
    ("created", labelValue (a.entry.bind Entry.created?)),
    ("updated", labelValue (a.entry.bind Entry.updated?)),
    ("tags", Record.textList ((a.entry.map (·.note.tags)).getD [])),
    ("messageCount", .int a.messages.length),
    ("userMessages", .int (a.countOf .user)),
    ("assistantMessages", .int (a.countOf .assistant)),
    ("speakers", Record.textList ((a.entry.map (·.summary.speakers)).getD [])),
    ("wordCount", .int a.wordCount),
    ("avgMessageLength", .int a.meanLength),
    ("hasCallouts", .bool (!a.calloutTypes.isEmpty)),
    ("calloutTypes", Record.textList a.calloutTypes),
    ("calloutCount", .int a.calloutCount),
    ("messages", .list (a.messages.map messageValue))]

end Analysis

end MarkdownVault.Conversation
