import MarkdownVault.Conversation.Detection
import MarkdownVault.Note
import MarkdownVault.Vault.Path

/-!
# Conversations in a vault

A note that is a conversation, with what was recognized in it. Its title and its times are read
off the front matter as texts.
-/

namespace MarkdownVault

/-- The text of a property. Null and the empty text are none; dates have their ISO form. -/
def Value.label? : Value → Option String
  | .null => none
  | .text s => if s.isEmpty then none else some s
  | .date d => some d.text
  | .moment t => some t.text
  | v => some v.shown

def Note.label? (n : Note) (key : String) : Option String := (n.frontMatter.lookup key).bind Value.label?

/-- The title, or else the name of the file. -/
def Note.title (n : Note) : String := (n.label? "title").getD (Path.stem n.path)

namespace Conversation

structure Entry where
  note : Note
  summary : Summary

/-- The notes that are conversations. -/
def entriesOf (notes : List Note) : List Entry :=
  (notes.map fun n => ⟨n, detect n.content n.frontMatter⟩).filter fun e => e.summary.isConversation

namespace Entry

def created? (e : Entry) : Option String := e.note.label? "created"
def updated? (e : Entry) : Option String := e.note.label? "updated"

end Entry

def assistantValue (a : Option Assistant) : Value := (a.map fun a => .text a.name).getD .null

def labelValue (s : Option String) : Value := (s.map Value.text).getD .null

end Conversation

end MarkdownVault
