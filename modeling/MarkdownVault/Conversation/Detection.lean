import MarkdownVault.Conversation.Message
import MarkdownVault.Note.Tag

/-!
# Recognizing conversations

Five signals make a note an exported conversation: its declared source is a known assistant, it
has one of two tags, an assistant's name is a tag, an assistant speaks in it, or the user and
somebody else speak in it. Callouts are reported for every note and decide nothing.
-/

namespace MarkdownVault.Conversation

inductive Assistant where
  | claude
  | chatGPT
  | perplexity
  | mistral
  | deepSeek
  | gemini
  deriving DecidableEq, Repr

namespace Assistant

def all : List Assistant := [claude, chatGPT, perplexity, mistral, deepSeek, gemini]

def name : Assistant → String
  | claude => "Claude"
  | chatGPT => "ChatGPT"
  | perplexity => "Perplexity"
  | mistral => "Mistral"
  | deepSeek => "DeepSeek"
  | gemini => "Gemini"

/-- The name as a tag. -/
def tag (a : Assistant) : String := lower a.name

def ofName? (s : String) : Option Assistant := all.find? fun a => a.name = s
def ofTag? (s : String) : Option Assistant := all.find? fun a => a.tag = s

theorem mem_all (a : Assistant) : a ∈ all := by cases a <;> decide

end Assistant

/-- Tags that mark a note as a conversation whoever speaks in it. -/
def conversationTags : List String := ["conversation", "research"]

structure Summary where
  isConversation : Bool
  source : Option Assistant
  messageCount : Nat
  userCount : Nat
  assistantCount : Nat
  speakers : List String
  calloutTypes : List String
  deriving DecidableEq, Repr

def Summary.hasCallouts (s : Summary) : Bool := !s.calloutTypes.isEmpty

/-- The assistant that the front matter names as the source. -/
def declaredSource? (frontMatter : Properties) : Option Assistant :=
  match frontMatter.lookup "source" with
  | some (.text s) => Assistant.ofName? s
  | _ => none

/-- The declared source, else the first assistant among the tags, else the first one that
speaks. -/
def source? (frontMatter : Properties) (tags speakers : List String) : Option Assistant :=
  (declaredSource? frontMatter).or
    ((tags.findSome? Assistant.ofTag?).or (speakers.findSome? Assistant.ofName?))

def detect (content : String) (frontMatter : Properties) : Summary :=
  let tags := Note.tagsOf content frontMatter
  let all := speakers content
  let distinct := all.eraseDups
  let source := source? frontMatter tags distinct
  let userCount := all.count userName
  { isConversation := source.isSome || tags.any conversationTags.contains ||
      (2 ≤ all.length && distinct.contains userName && 2 ≤ distinct.length)
    source
    messageCount := all.length
    userCount
    assistantCount := all.length - userCount
    speakers := distinct
    calloutTypes := calloutTypes content }

end MarkdownVault.Conversation
