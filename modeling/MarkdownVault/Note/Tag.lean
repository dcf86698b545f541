import MarkdownVault.Text.Basic
import MarkdownVault.Value

/-!
# Tags of a note

Tags are declared in the front matter or written in the text as `#tag` at the start of the text
or after a blank. Code does not count as text, and neither does the front matter block.
-/

namespace MarkdownVault.Note

/-- A tag without its leading `#`. -/
def bareTag (tag : String) : String :=
  mapChars (fun cs => match cs with
    | '#' :: cs => cs
    | cs => cs) tag

def isTagPart (c : Char) : Bool := c.isAlphanum || c == '_' || c == '/' || c == '-'

/-- The text after a block that opens the text with `---` and ends at the next `---`, the line
feed after it included. -/
def dropBlock (cs : List Char) : List Char :=
  match Text.dropStart? ['-', '-', '-'] cs with
  | none => cs
  | some rest => match Text.cutFirst? ['-', '-', '-'] rest with
    | none => cs
    | some (_, '\n' :: rest) => rest
    | some (_, rest) => rest

def fence : List Char := ['\x60', '\x60', '\x60']

/-- The text without its fenced blocks; a fence that nothing closes stays. -/
def dropFenced (cs : List Char) : List Char :=
  match _h : Text.cutFirst? fence cs with
  | none => cs
  | some (before, rest) => match _h' : Text.cutFirst? fence rest with
    | none => cs
    | some (_, after) => before ++ dropFenced after
termination_by cs.length
decreasing_by
  have := Text.length_cutFirst? _h
  have := Text.length_cutFirst? _h'
  simp [fence] at *
  omega

/-- The text without its code spans: backticks with something else than a backtick between. -/
def dropCodeSpans (cs : List Char) : List Char :=
  match cs with
  | [] => []
  | c :: cs =>
    if c = '\x60' ∧ !(cs.takeWhile (· != '\x60')).isEmpty then
      match _h : cs.dropWhile (· != '\x60') with
      | _ :: rest => dropCodeSpans rest
      | [] => c :: dropCodeSpans cs
    else c :: dropCodeSpans cs
termination_by cs.length
decreasing_by
  · have := Text.length_dropWhile_le (· != '\x60') cs
    rw [_h] at this
    simp at this ⊢
    omega
  · simp
  · simp

/-- The tags in a text; `start` tells whether a tag may begin here. -/
def tagsFrom (start : Bool) : List Char → List (List Char)
  | [] => []
  | c :: cs =>
    if start ∧ c = '#' ∧ !(cs.takeWhile isTagPart).isEmpty then
      cs.takeWhile isTagPart :: tagsFrom false (cs.dropWhile isTagPart)
    else tagsFrom (Text.isBlank c) cs
termination_by cs => cs.length
decreasing_by
  · have := Text.length_dropWhile_le isTagPart cs
    simp
    omega
  · simp

/-- The tags written in the text itself. -/
def inlineTags (content : String) : List String :=
  let text := dropCodeSpans (dropFenced (dropBlock content.toList))
  (tagsFrom true text).map String.ofList

/-- The tags that the front matter declares, as a list or as a single text. -/
def declaredTags (frontMatter : Properties) : List String :=
  match frontMatter.lookup "tags" with
  | some (.list items) => (items.filterMap Value.text?).map bareTag
  | some (.text tag) => [bareTag tag]
  | _ => []

/-- Declared tags first, each tag once. -/
def tagsOf (content : String) (frontMatter : Properties) : List String :=
  (declaredTags frontMatter ++ (inlineTags content).map bareTag).eraseDups

end MarkdownVault.Note
