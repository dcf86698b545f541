import MarkdownVault.Yaml.Meaning
import MarkdownVault.Filter.Record
import MarkdownVault.Note.FrontMatter
import MarkdownVault.Vault.Path

/-!
# Definitions of bases

A base is a saved query: a filter, formulas, and views that filter, sort, limit and project the
notes that match. Fields that the format does not know are kept beside the known ones.
-/

namespace MarkdownVault

inductive SortDirection where
  | asc
  | desc
  deriving DecidableEq, Repr

def SortDirection.text : SortDirection → String
  | asc => "asc"
  | desc => "desc"

/-- A property to sort or group by. -/
structure SortKey where
  property : String
  direction : SortDirection
  deriving DecidableEq, Repr

structure View where
  type : String
  name : String
  /-- As written; see `Filter.Condition.ofValue?`. -/
  filters : Value
  order : Option (List SortKey)
  limit : Option Int
  columns : Option (List String)
  groupBy : Option SortKey
  extra : Properties
  deriving Repr

/-- A table that shows every note. -/
def View.standard : View :=
  { type := "table", name := "Default", filters := .null, order := none, limit := none,
    columns := none, groupBy := none, extra := [] }

structure Base where
  filters : Value
  formulas : Option (List (String × String))
  /-- Hints for display; nothing is computed from them. -/
  properties : Option Properties
  views : List View
  extra : Properties
  deriving Repr

/-- Why a text or a value is no base. -/
inductive BaseFault where
  | notMapping
  | document (fault : Yaml.Fault)
  /-- Some field has a value of the wrong kind. -/
  | shape
  deriving DecidableEq, Repr

namespace SortDirection

def ofValue? : Value → Option SortDirection
  | .text "asc" => some asc
  | .text "desc" => some desc
  | _ => none

end SortDirection

namespace SortKey

def ofValue? : Value → Option SortKey
  | .map entries => do
    return {
      property := ← Value.readField? entries "property" Value.readText? none
      direction := ← Value.readField? entries "direction" SortDirection.ofValue? (some .asc) }
  | _ => none

/-- In a list of sort keys a bare text asks for ascending order. -/
def ofItem? : Value → Option SortKey
  | .text property => some ⟨property, .asc⟩
  | v => ofValue? v

def toValue (k : SortKey) : Value :=
  .map [(.text "property", .text k.property), (.text "direction", .text k.direction.text)]

end SortKey

/-- A field that may be null. -/
def Value.readOption? {α : Type} (read : Value → Option α) : Value → Option (Option α)
  | .null => some none
  | v => (read v).map some

/-- The entries with the known keys taken out; all keys must be texts. -/
def extraFields? (known : List String) (entries : List (Value × Value)) : Option Properties := do
  let fields ← entries.mapM fun (k, v) => do return (← k.text?, v)
  return fields.filter fun f => !known.contains f.1

/-- A field with null as its default. -/
def readNullable? {α : Type} (entries : List (Value × Value)) (key : String)
    (read : Value → Option α) : Option (Option α) :=
  Value.readField? entries key (Value.readOption? read) (some none)

namespace View

def readOrder? : Value → Option (List SortKey)
  | .list items => items.mapM SortKey.ofItem?
  | .set items => items.mapM SortKey.ofValue?
  | _ => none

/-- Grouping may be written under two keys; the first one prevails, and the other is then kept
like an unknown one. -/
def groupKey (entries : List (Value × Value)) : String :=
  if (Value.lookup? entries "groupBy").isSome then "groupBy" else "group_by"

def ofValue? : Value → Option View
  | .map entries => do
    let known := ["type", "name", "filters", "order", "limit", "columns", groupKey entries]
    return {
      type := ← Value.readField? entries "type" Value.readText? (some View.standard.type)
      name := ← Value.readField? entries "name" Value.readText? (some View.standard.name)
      filters := ← Value.readField? entries "filters" some (some .null)
      order := ← readNullable? entries "order" readOrder?
      limit := ← readNullable? entries "limit" Value.readInt?
      columns := ← readNullable? entries "columns" (Value.readList? Value.readText?)
      groupBy := ← readNullable? entries (groupKey entries) SortKey.ofValue?
      extra := ← extraFields? known entries }
  | _ => none

/-- All fields in their order, null where nothing is given, and the unknown ones after them. -/
def fields (v : View) : Properties :=
  [("type", .text v.type), ("name", .text v.name), ("filters", v.filters),
    ("order", (v.order.map fun ks => .list (ks.map SortKey.toValue)).getD .null),
    ("limit", (v.limit.map .int).getD .null),
    ("columns", (v.columns.map Record.textList).getD .null),
    ("groupBy", (v.groupBy.map SortKey.toValue).getD .null)] ++ v.extra

def toValue (v : View) : Value := .ofProperties v.fields

end View

namespace Base

/-- Names and formulas are taken as the texts that show them. -/
def readFormulas? : Value → Option (List (String × String))
  | .map entries => some ((Note.propertiesOf entries).map fun (name, v) => (name, v.shown))
  | _ => none

/-- Reads a base; one without views has none. -/
def ofValue? : Value → Option Base
  | .map entries => do
    return {
      filters := ← Value.readField? entries "filters" some (some .null)
      formulas := ← readNullable? entries "formulas" readFormulas?
      properties := ← readNullable? entries "properties" Value.readProperties?
      views := ← Value.readField? entries "views" (Value.readList? View.ofValue?) (some [])
      extra := ← extraFields? ["filters", "formulas", "properties", "views"] entries }
  | _ => none

/-- All fields in their order, with the views as given, and the unknown ones after them. -/
def fieldsWith (b : Base) (views : List Properties) : Properties :=
  [("filters", b.filters),
    ("formulas",
      (b.formulas.map fun fs => .ofProperties (fs.map fun (k, s) => (k, .text s))).getD .null),
    ("properties", (b.properties.map Value.ofProperties).getD .null),
    ("views", .list (views.map Value.ofProperties))] ++ b.extra

def fields (b : Base) : Properties := b.fieldsWith (b.views.map View.fields)

def toValue (b : Base) : Value := .ofProperties b.fields

/-- Gives a mapping without a list of views the standard view. -/
def withViews (entries : List (Value × Value)) : List (Value × Value) :=
  match Value.lookup? entries "views" with
  | some (.list (_ :: _)) => entries
  | _ => Value.putEntry entries (.text "views")
      (.list [.map [(.text "type", .text View.standard.type),
        (.text "name", .text View.standard.name)]])

/-- Reads the text of a base. One without views gets the standard view, and one that holds itself
counts as malformed. -/
def ofText (text : String) : Except BaseFault Base :=
  match Yaml.finiteValueOf .strict text with
  | .error fault => .error (.document fault)
  | .ok (.map entries) => match ofValue? (.map (withViews entries)) with
    | some b => .ok b
    | none => .error .shape
  | .ok _ => .error .notMapping

/-- The view with an index; the first one if there is no such view. -/
def view (b : Base) (index : Int) : View :=
  let first := b.views.headD .standard
  if 0 ≤ index then (b.views[index.toNat]?).getD first else first

def hasFilters (b : Base) : Bool := !b.filters.isNothing

def hasFormulas (b : Base) : Bool := b.formulas.any (!·.isEmpty)

/-! ## Templates -/

/-- A base with one table. A folder takes the place of the filter; an empty text is neither. -/
def table (name : String) (filters folder : Option String) (columns : Option (List String)) :
    Base :=
  let given := (filters.filter (!·.isEmpty)).map Value.text
  let inFolder := (folder.filter (!·.isEmpty)).map fun f =>
    Value.text ("file.folder == \"" ++ mapChars (Text.trimChar '/') f ++ "\"")
  { filters := (inFolder.or given).getD .null
    formulas := none
    properties := none
    views := [{ View.standard with name, columns }]
    extra := [] }

/-- The filter for conversations, optionally of one source or below one folder. -/
def conversationFilter (source folder : Option String) : String :=
  let source := (source.filter (!·.isEmpty)).map fun s => "source == \"" ++ s ++ "\""
  let folder := mapChars (Text.dropEndWhile (· == '/')) (Path.normalize (folder.getD ""))
  let below := if folder.isEmpty then none else some ("file.inFolder(\"" ++ folder ++ "\")")
  joinWith " && " (source.toList ++ below.toList ++
    ["file.hasTag(\"conversation\") || file.hasTag(\"research\")"])

/-- A base of the conversations in a vault, with three views. -/
def conversations (source folder : Option String) : Base :=
  let title (name : String) : Value := .map [(.text "displayName", .text name)]
  { filters := .text (conversationFilter source folder)
    formulas := some [("messageCount", "length(tags)")]
    properties := some [("title", title "Title"), ("source", title "Source"),
      ("created", title "Created"), ("updated", title "Updated")]
    views := [
      { View.standard with
        name := "All Conversations"
        columns := some ["file.name", "source", "created", "updated", "file.tags"]
        order := some [⟨"created", .desc⟩] },
      { View.standard with
        name := "By Source"
        columns := some ["file.name", "source", "created", "file.tags"]
        order := some [⟨"source", .asc⟩]
        groupBy := some ⟨"source", .asc⟩ },
      { View.standard with
        type := "list"
        name := "Recent"
        columns := some ["file.name", "source", "created"]
        order := some [⟨"created", .desc⟩]
        limit := some 20 }]
    extra := [] }

end Base

end MarkdownVault
