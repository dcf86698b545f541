import MarkdownVault.Value.Field

/-!
# Notes as records

What a filter, a formula or a view can ask of a note: the properties of its file and those of
its front matter.
-/

namespace MarkdownVault

/-- Times are milliseconds since 1970. -/
structure Record where
  path : String
  name : String
  folder : String
  extension : String
  size : Int
  created : Binary64
  modified : Binary64
  tags : List String
  links : List String
  properties : Properties
  deriving Repr

namespace Record

/-- Reads the fields of a record by the given names; the first four are required. -/
def ofValue? : Value → Option Record
  | .map entries => do
    let texts := Value.readList? Value.readText?
    let zero := some (Binary64.zero false)
    return {
      path := ← Value.readField? entries "path" Value.readText? none
      name := ← Value.readField? entries "name" Value.readText? none
      folder := ← Value.readField? entries "folder" Value.readText? none
      extension := ← Value.readField? entries "extension" Value.readText? none
      size := ← Value.readField? entries "size" Value.readInt? (some 0)
      created := ← Value.readField? entries "ctime" Value.readNumber? zero
      modified := ← Value.readField? entries "mtime" Value.readNumber? zero
      tags := ← Value.readField? entries "tags" texts (some [])
      links := ← Value.readField? entries "links" texts (some [])
      properties := ← Value.readField? entries "properties" Value.readProperties? (some []) }
  | _ => none

def textList (texts : List String) : Value := .list (texts.map .text)

/-- A property of the file; unknown ones are null. -/
def fileProperty (r : Record) (name : String) : Value :=
  match name with
  | "name" => .text r.name
  | "path" => .text r.path
  | "folder" => .text r.folder
  | "ext" => .text r.extension
  | "size" => .int r.size
  | "ctime" => .float r.created
  | "mtime" => .float r.modified
  | "tags" => textList r.tags
  | "links" => textList r.links
  | _ => .null

/-- A property of the front matter; it may be written behind `note.`. -/
def noteProperty (r : Record) (name : String) : Value :=
  match r.properties.lookup name with
  | some v => v
  | none =>
    if startsWith name "note." then (r.properties.lookup (dropChars 5 name)).getD .null
    else .null

end Record

end MarkdownVault
