import MarkdownVault.Text.WordChar
import MarkdownVault.Text.LetterCase

/-!
# Callouts

A callout opens with a line `> [!TYPE] title`; the quoted lines after it are its content.
-/

namespace MarkdownVault.Conversation

structure Callout where
  type : String
  title : String
  content : String
  deriving DecidableEq, Repr

/-- `>`, blanks, and a type in brackets: the type as written and the text behind. -/
def calloutMark? : List Char → Option (List Char × List Char)
  | '>' :: cs =>
    match cs.dropWhile Text.isBlank with
    | '[' :: '!' :: cs =>
      let type := cs.takeWhile Text.isWordChar
      match cs.dropWhile Text.isWordChar with
      | ']' :: rest => if type.isEmpty then none else some (type, rest)
      | _ => none
    | _ => none
  | _ => none

theorem length_calloutMark? {cs type rest : List Char} (h : calloutMark? cs = some (type, rest)) :
    rest.length < cs.length := by
  unfold calloutMark? at h
  split at h
  case h_1 cs =>
    have hblanks := Text.length_dropWhile_le Text.isBlank cs
    split at h
    case h_1 inner hinner =>
      have hletters := Text.length_dropWhile_le Text.isWordChar inner
      dsimp only at h
      split at h
      case h_1 behind hbehind =>
        split at h
        case isTrue => cases h
        case isFalse =>
          cases h
          rw [hinner, List.length_cons, List.length_cons] at hblanks
          rw [hbehind, List.length_cons] at hletters
          rw [List.length_cons]
          omega
      case h_2 => cases h
    case h_2 => cases h
  case h_2 => cases h

/-- The types of all marks at line starts, as written. A mark may go over a line end. -/
def calloutMarksFrom (lineStart : Bool) (cs : List Char) : List (List Char) :=
  match _h : if lineStart then calloutMark? cs else none with
  | some (type, rest) => type :: calloutMarksFrom false rest
  | none => match cs with
    | [] => []
    | c :: cs => calloutMarksFrom (c == '\n') cs
termination_by cs.length
decreasing_by
  · split at _h
    · exact length_calloutMark? _h
    · simp at _h
  · simp

/-- The distinct types of the marks in a text, in upper case. -/
def calloutTypes (content : String) : List String :=
  ((calloutMarksFrom true content.toList).map fun t => String.ofList (Text.upper t)).eraseDups

/-- The type and the title of a line that opens a callout. -/
def header? (line : List Char) : Option (String × String) :=
  (calloutMark? line).map fun (type, rest) =>
    (String.ofList (Text.upper type), String.ofList (Text.trim rest))

def isQuoted (line : List Char) : Bool := line.head? == some '>'

/-- Whether a line goes on the callout above it. -/
def continues (line : List Char) : Bool := isQuoted line && (header? line).isNone

/-- The line without its `>` and one blank after it. -/
def unquoted : List Char → List Char
  | '>' :: c :: cs => if Text.isBlank c then cs else c :: cs
  | '>' :: cs => cs
  | cs => cs

/-- Each header with the longest run of continuing lines below it. -/
def calloutsIn (lines : List (List Char)) : List Callout :=
  match lines with
  | [] => []
  | line :: rest =>
    match header? line with
    | none => calloutsIn rest
    | some (type, title) =>
      let content := List.intercalate ['\n'] ((rest.takeWhile continues).map unquoted)
      ⟨type, title, String.ofList (Text.trim content)⟩ :: calloutsIn (rest.dropWhile continues)
termination_by lines.length
decreasing_by
  · simp
  · have := (List.dropWhile_sublist continues (l := rest)).length_le
    simp
    omega

def callouts (text : String) : List Callout := calloutsIn (Text.lines text.toList)

end MarkdownVault.Conversation
