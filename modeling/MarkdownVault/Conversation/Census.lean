import MarkdownVault.Conversation.Analysis

/-!
# Counting conversations

Conversations are counted by source and by month, months being the first seven characters of the
time of creation.
-/

namespace MarkdownVault.Conversation

/-- How often each text occurs, in the order of first occurrence. -/
def tally (texts : List String) : List (String × Nat) :=
  texts.eraseDups.map fun s => (s, texts.count s)

structure Census where
  conversationCount : Nat
  messageCount : Nat
  bySource : List (String × Nat)
  byMonth : List (String × Nat)
  deriving DecidableEq, Repr

namespace Census

def sourceName (e : Entry) : String := (e.summary.source.map Assistant.name).getD "unknown"

def month (time : String) : String := takeChars 7 time

def ofEntries (entries : List Entry) : Census :=
  { conversationCount := entries.length
    messageCount := total (entries.map (·.summary.messageCount))
    bySource := tally (entries.map sourceName)
    byMonth := tally (entries.filterMap fun e => e.created?.map month) }

def meanMessages (c : Census) : Int := meanOf c.messageCount c.conversationCount

def tallyValue (counts : List (String × Nat)) : Value :=
  .ofProperties (counts.map fun (s, n) => (s, .int n))

def toValue (c : Census) : Value :=
  .ofProperties [("totalConversations", .int c.conversationCount),
    ("totalMessages", .int c.messageCount),
    ("avgMessagesPerConversation", .int c.meanMessages),
    ("bySource", tallyValue c.bySource), ("byMonth", tallyValue c.byMonth)]

end Census

end MarkdownVault.Conversation
