import MarkdownVault.Yaml.Meaning

/-!
# Front matter

A note may open with metadata between two lines of dashes. What stands between them is read as
a document; only a mapping counts. A note whose metadata cannot be read is all body.
-/

namespace MarkdownVault.Note

/-- Carriage returns before line feeds are dropped. -/
def plainBreaks : List Char → List Char
  | '\r' :: '\n' :: cs => '\n' :: plainBreaks cs
  | c :: cs => c :: plainBreaks cs
  | [] => []

/-- The text from the last line feed of a row of blanks on; `atEnd` tells whether the whole text
ends behind them. -/
def fromLastBreak? (atEnd : Bool) : List Char → Option (List Char)
  | [] => if atEnd then some [] else none
  | c :: cs => match fromLastBreak? atEnd cs with
    | some rest => some rest
    | none => if c = '\n' then some (c :: cs) else none

/-- The text behind a boundary: at least three dashes and then blanks up to the end of a line, as
far as they go. -/
def boundary? (cs : List Char) : Option (List Char) :=
  match Text.dropStart? ['-', '-', '-'] cs with
  | none => none
  | some cs =>
    let cs := cs.dropWhile (· == '-')
    let rest := cs.dropWhile Text.isBlank
    (fromLastBreak? rest.isEmpty (cs.takeWhile Text.isBlank)).map (· ++ rest)

/-- The text up to the next boundary at the start of a line, and the text behind it. -/
def cutBoundary? (lineStart : Bool) (cs : List Char) : Option (List Char × List Char) :=
  match if lineStart then boundary? cs else none with
  | some rest => some ([], rest)
  | none => match cs with
    | [] => none
    | c :: cs => (cutBoundary? (c == '\n') cs).map fun (before, after) => (c :: before, after)

/-- Whether the text behind a boundary is at the start of a line. -/
def endsLine (whole rest : List Char) : Bool :=
  (whole.take (whole.length - rest.length)).getLast? == some '\n'

/-- The text of the metadata and the body behind it. -/
def cutFrontMatter? (cs : List Char) : Option (List Char × List Char) :=
  match boundary? cs with
  | none => none
  | some rest => cutBoundary? (endsLine cs rest) rest

/-- Properties from the entries of a mapping: other keys than texts count as the texts that show
them. -/
def propertiesOf (entries : List (Value × Value)) : Properties :=
  entries.foldl (fun ps (k, v) => ps.put k.shown v) []

/-- Metadata and body of a note. -/
def frontMatterOf (content : String) : Except Yaml.Fault (Properties × String) :=
  let opens := (Text.dropStart? ['-', '-', '-'] (Text.trimStart content.toList)).isSome
  let text := Text.trim (plainBreaks content.toList)
  if !opens then .ok ([], content)
  else match cutFrontMatter? text with
    | none => .ok ([], String.ofList text)
    | some (metadata, body) =>
      let body := String.ofList (Text.trim body)
      match Yaml.valueOf .lenient (String.ofList metadata) with
      | .ok (.map entries) => .ok (propertiesOf (Value.ownEntries entries), body)
      | .ok _ => .ok ([], body)
      | .error .malformed => .ok ([], content)
      | .error fault => .error fault

end MarkdownVault.Note
