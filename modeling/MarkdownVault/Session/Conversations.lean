import MarkdownVault.Conversation.Census
import MarkdownVault.Conversation.Search
import MarkdownVault.Session.Graph

/-!
# Conversations of a vault
-/

namespace MarkdownVault.Session

open Conversation

/-- The conversations below a folder that can be read. -/
def conversationsIn {σ : Type} [Backend σ] (c : Criteria) : OperationM σ (List Entry) := do
  return entriesOf ((← Vault.sweep fun f => c.inFolder f.path).map (·.2))

/-- The number of conversations that a search tells, unless another one is given. -/
def standardResults : Int := 50

def runSearch {σ : Type} [Backend σ] (c : Criteria) (limit : Int) : OperationM σ SearchResult := do
  return ⟨c, Conversation.search c limit (← conversationsIn c)⟩

def search (vault : Option String) (c : Criteria) (limit : Int) : SessionM SearchResult := do
  atLeastOne "max_results" limit
  on vault (runSearch c limit)

def analysis (vault : Option String) (path : String) : SessionM Analysis := do
  return .ofNote (← note vault path)

def runCensus {σ : Type} [Backend σ] : OperationM σ Census := do
  return .ofEntries (← conversationsIn .none)

def census (vault : Option String) : SessionM Census := on vault runCensus

end MarkdownVault.Session
