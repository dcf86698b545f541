import MarkdownVault.Proofs.Conversation.Lines
import MarkdownVault.Proofs.Conversation.Marker

/-!
# Reading back an export

An export is a row of parts with rules between them. Every message among them is read back, and
nothing else.
-/

namespace MarkdownVault.Conversation

/-! ## Parts of an export -/

/-- What somebody says: a text without blanks at its ends and without rules. -/
structure Utterance where
  speaker : String
  content : String
  isName : IsName speaker.toList
  trimmed : trim content = content
  noRule : ¬HasRule content.toList

/-- A text that is not blank, has no rules and opens with no marker. -/
structure Passage where
  text : String
  notBlank : ¬isBlankText text
  noRule : ¬HasRule text.toList
  unmarked : ¬∃ speaker rest, Opens true (Text.trim text.toList) speaker rest

/-- A section of an export. -/
inductive Part where
  | message (u : Utterance)
  | passage (p : Passage)

namespace Part

def text : Part → String
  | message u => "**" ++ u.speaker ++ "**: " ++ u.content
  | passage p => p.text

/-- The message that a part is, with the callouts of its content. -/
def message? : Part → Option Message
  | message u => some {
      role := if u.speaker = "User" then .user else .assistant
      speaker := u.speaker
      content := u.content
      callouts := callouts u.content }
  | passage _ => none

end Part

/-- Parts with a blank line, a rule and a blank line between each two. -/
def exported (parts : List Part) : String := joinWith "\n\n---\n\n" (parts.map Part.text)

/-! ## Sections of an export -/

theorem messageOf?_congr {cs ds : List Char} (h : Text.trim cs = Text.trim ds) :
    messageOf? cs = messageOf? ds := by
  rw [messageOf?, messageOf?, h]

theorem filterMap_messageOf?_congr {texts others : List (List Char)}
    (h : texts.map Text.trim = others.map Text.trim) :
    texts.filterMap messageOf? = others.filterMap messageOf? := by
  induction texts generalizing others with
  | nil =>
    rw [List.map_nil, eq_comm, List.map_eq_nil_iff] at h
    rw [h]
  | cons text texts ih =>
    cases others with
    | nil => cases h
    | cons other others =>
      obtain ⟨hfirst, hrest⟩ := List.cons.inj h
      rw [List.filterMap_cons, List.filterMap_cons, messageOf?_congr hfirst, ih hrest]

namespace Utterance

theorem toList_text (u : Utterance) : (Part.message u).text.toList =
    '*' :: '*' :: (u.speaker.toList ++ '*' :: '*' :: ':' :: ' ' :: u.content.toList) := by
  simp [Part.text]

/-- The marker's line is no rule, whatever is said on it. -/
theorem not_hasRule (u : Utterance) : ¬HasRule (Part.message u).text.toList := by
  intro h
  have htext : (Part.message u).text.toList =
      '*' :: '*' :: (u.speaker.toList ++ ['*', '*', ':', ' ']) ++ u.content.toList := by
    simp [u.toList_text]
  have hbreak : '\n' ∉ '*' :: '*' :: (u.speaker.toList ++ ['*', '*', ':', ' ']) := by
    have hspeaker : '\n' ∉ u.speaker.toList := by
      intro hmem
      have hword := u.isName.2 _ hmem
      rw [Text.isWordChar_of_isBlank (by decide)] at hword
      cases hword
    simpa using hspeaker
  rw [htext] at h
  exact u.noRule (hasRule_of_prepend hbreak List.mem_cons_self h)

/-- Trimming leaves the marker and takes nothing off the content, be it empty or not. -/
theorem exists_trim_text (u : Utterance) :
    ∃ behind, Text.trim (Part.message u).text.toList =
        '*' :: '*' :: (u.speaker.toList ++ '*' :: '*' :: ':' :: behind) ∧
      Text.trim behind = u.content.toList := by
  refine ⟨Text.trimEnd (' ' :: u.content.toList), ?_, ?_⟩
  · have hcolon := @Text.trimEnd_append_cons ':' (by decide)
      ('*' :: '*' :: (u.speaker.toList ++ ['*', '*'])) (' ' :: u.content.toList)
    have hstart : Text.trimStart (Part.message u).text.toList = (Part.message u).text.toList := by
      rw [u.toList_text]
      exact List.dropWhile_cons_of_neg (by decide)
    rw [Text.trim, hstart, u.toList_text]
    simpa using hcolon
  · have hspace : ∀ c ∈ [' '], Text.isBlank c := List.forall_mem_singleton.2 (by decide)
    have htrimmed : Text.trim u.content.toList = u.content.toList := by
      simpa [trim] using congrArg String.toList u.trimmed
    obtain ⟨blanks, hblanks, hend⟩ := Text.exists_trimEnd (' ' :: u.content.toList)
    calc Text.trim (Text.trimEnd (' ' :: u.content.toList))
        = Text.trim (Text.trimEnd (' ' :: u.content.toList) ++ blanks) :=
          (Text.trim_append hblanks _).symm
      _ = Text.trim ([' '] ++ u.content.toList) := by rw [← hend, List.singleton_append]
      _ = u.content.toList := (Text.trim_prepend hspace _).trans htrimmed

theorem messageOf?_eq (u : Utterance) :
    messageOf? (Part.message u).text.toList = (Part.message u).message? := by
  obtain ⟨behind, htrim, hcontent⟩ := u.exists_trim_text
  have hends : Ends ('*' :: '*' :: ':' :: behind) behind := ⟨[], by simp, rfl⟩
  rw [messageOf?, htrim, marker?_plain u.isName hends, Option.map_some]
  simp only [Part.message?, speakerName_of_isName u.isName, hcontent, String.ofList_toList,
    userName]

end Utterance

theorem Passage.messageOf?_eq (p : Passage) : messageOf? p.text.toList = none := by
  rw [messageOf?, marker?_eq_none_iff.2 p.unmarked, Option.map_none]

namespace Part

theorem not_hasRule (p : Part) : ¬HasRule p.text.toList := by
  cases p with
  | message u => exact u.not_hasRule
  | passage p => exact p.noRule

theorem exists_dark (p : Part) : ∃ c ∈ p.text.toList, ¬Text.isBlank c := by
  cases p with
  | message u => exact ⟨'*', by simp [u.toList_text], by decide⟩
  | passage p =>
    obtain ⟨c, hc, hdark⟩ : ∃ c ∈ p.text.toList, Text.isBlank c = false := by
      simpa [isBlankText] using p.notBlank
    exact ⟨c, hc, by simp [hdark]⟩

theorem messageOf?_eq (p : Part) : messageOf? p.text.toList = p.message? := by
  cases p with
  | message u => exact u.messageOf?_eq
  | passage p => exact p.messageOf?_eq

end Part

/-- Of an export all messages are read back, in order, and nothing else is. -/
theorem messages_exported (parts : List Part) :
    messages (exported parts) = parts.filterMap Part.message? := by
  cases parts with
  | nil =>
    have hempty : (exported []).toList = [] := rfl
    rw [messages, hempty, sections_nil]
    rfl
  | cons part parts =>
    have htext : (exported (part :: parts)).toList =
        joint.intercalate (part.text.toList :: parts.map (String.toList ∘ Part.text)) := by
      rw [exported, toList_joinWith, List.map_map]
      rfl
    have hparts : ∀ cs ∈ parts.map (String.toList ∘ Part.text),
        ¬HasRule cs ∧ ∃ c ∈ cs, ¬Text.isBlank c := by
      intro cs hcs
      obtain ⟨p, -, rfl⟩ := List.mem_map.1 hcs
      exact ⟨p.not_hasRule, p.exists_dark⟩
    have hsections := map_trim_sections (uncut_of_not_hasRule part.not_hasRule) hparts
    have hmessage : messageOf? ∘ String.toList ∘ Part.text = Part.message? := by
      funext p
      exact p.messageOf?_eq
    calc messages (exported (part :: parts))
        = (sections (joint.intercalate
            (part.text.toList :: parts.map (String.toList ∘ Part.text)))).filterMap messageOf? := by
          rw [messages, htext]
      _ = ((part :: parts).map (String.toList ∘ Part.text)).filterMap messageOf? :=
          filterMap_messageOf?_congr hsections
      _ = (part :: parts).filterMap Part.message? := by rw [List.filterMap_map, hmessage]

/-- A message without content stays one of its own, and a line of four dashes is no rule. -/
theorem messages_exported_empty_content : ∃ parts : List Part,
    exported parts = "Notes\n----\n\n---\n\n**User**: \n\n---\n\n**Claude**: **User**: no" ∧
      messages (exported parts) =
        [⟨.user, "User", "", []⟩, ⟨.assistant, "Claude", "**User**: no", []⟩] := by
  have huser : IsName "User".toList := ⟨by decide, List.all_eq_true.1 (by decide +kernel)⟩
  have hclaude : IsName "Claude".toList := ⟨by decide, List.all_eq_true.1 (by decide +kernel)⟩
  have hnotes : ¬∃ speaker rest, Opens true (Text.trim "Notes\n----".toList) speaker rest :=
    marker?_eq_none_iff.1 (by decide)
  let parts : List Part := [
    .passage ⟨"Notes\n----", by decide, by decide, hnotes⟩,
    .message ⟨"User", "", huser, by decide, by decide⟩,
    .message ⟨"Claude", "**User**: no", hclaude, by decide, by decide⟩]
  have hnone : callouts "" = [] ∧ callouts "**User**: no" = [] := by decide +kernel
  have htexts : parts.map Part.text = ["Notes\n----", "**" ++ "User" ++ "**: " ++ "",
    "**" ++ "Claude" ++ "**: " ++ "**User**: no"] := rfl
  refine ⟨parts, ?_, (messages_exported parts).trans ?_⟩
  · rw [exported, htexts]
    decide +kernel
  · simp [parts, List.filterMap_cons, Part.message?, hnone]

end MarkdownVault.Conversation
