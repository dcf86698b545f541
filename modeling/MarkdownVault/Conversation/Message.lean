import MarkdownVault.Conversation.Callout
import MarkdownVault.Conversation.Marker

/-!
# Messages of a conversation

Lines of three dashes cut the body into sections. A section that opens with a role marker is a
message; all others leave no trace.
-/

namespace MarkdownVault.Conversation

inductive Role where
  | user
  | assistant
  deriving DecidableEq, Repr

def Role.text : Role → String
  | user => "user"
  | assistant => "assistant"

/-- The speaker whose messages are the user's. -/
def userName : String := "User"

structure Message where
  role : Role
  speaker : String
  content : String
  callouts : List Callout
  deriving DecidableEq, Repr

/-- The rest after the last line feed of a text; none without a line feed. -/
def afterLastBreak? : List Char → Option (List Char)
  | [] => none
  | c :: cs => match afterLastBreak? cs with
    | some rest => some rest
    | none => if c = '\n' then some cs else none

/-- What follows a line feed when a separator stands there: blanks, `---`, and blanks that hold
a line feed. The section after it begins behind the last of these. -/
def separator? (cs : List Char) : Option (List Char) :=
  match Text.dropStart? ['-', '-', '-'] (cs.dropWhile Text.isBlank) with
  | none => none
  | some rest => (afterLastBreak? (rest.takeWhile Text.isBlank)).map
      (· ++ rest.dropWhile Text.isBlank)

theorem length_afterLastBreak? {cs rest : List Char} (h : afterLastBreak? cs = some rest) :
    rest.length < cs.length := by
  induction cs with
  | nil => simp [afterLastBreak?] at h
  | cons c cs ih =>
    unfold afterLastBreak? at h
    split at h
    · rename_i found hf
      have := ih (hf.trans h)
      simp
      omega
    · split at h
      · simp only [Option.some.injEq] at h
        simp [← h]
      · simp at h

theorem length_separator? {cs rest : List Char} (h : separator? cs = some rest) :
    rest.length < cs.length := by
  unfold separator? at h
  split at h
  · simp at h
  · rename_i tail ht
    obtain ⟨r, hr, he⟩ := Option.map_eq_some_iff.1 h
    have h₁ := length_afterLastBreak? hr
    have h₂ := length_dropStart? ht
    have h₃ := Text.length_dropWhile_le Text.isBlank cs
    have h₄ := congrArg List.length (List.takeWhile_append_dropWhile (p := Text.isBlank) (l := tail))
    simp only [List.length_append] at h₄
    rw [← he]
    simp
    omega

/-- The sections of a text, cut at separators from the left. -/
def sections : List Char → List (List Char)
  | [] => [[]]
  | c :: cs =>
    match _h : if c = '\n' then separator? cs else none with
    | some rest => [] :: sections rest
    | none => (sections cs).modifyHead (c :: ·)
termination_by cs => cs.length
decreasing_by
  · split at _h
    · have := length_separator? _h
      simp
      omega
    · simp at _h
  · simp

/-- The message of a section that opens with a marker. -/
def messageOf? (part : List Char) : Option Message :=
  (marker? true (Text.trim part)).map fun (speaker, rest) =>
    let speaker := speakerName speaker
    let content := String.ofList (Text.trim rest)
    { role := if speaker = userName then .user else .assistant
      speaker
      content
      callouts := callouts content }

def messages (body : String) : List Message := (sections body.toList).filterMap messageOf?

end MarkdownVault.Conversation
