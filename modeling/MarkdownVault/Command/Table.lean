import MarkdownVault.Text.LetterCase
import MarkdownVault.Value.Literal

/-!
# Tables of text

Rows are laid out in columns, each as wide as its name or its widest cell. A cell longer than the
limit of its column is cut and ends in three dots.
-/

namespace MarkdownVault.Table

/-- What a cell shows: nothing for null, the items of a list with commas between them. -/
def cellText : Value → String
  | .null => ""
  | .list items => joinWith ", " ((Value.ownItems items).map Value.shown)
  | v => v.shown

/-- The first `n` characters, or all but the last `-n` of them. -/
def cutAt (n : Int) (s : String) : String :=
  takeChars (if n < 0 then s.length - n.natAbs else n.natAbs) s

/-- The limit of a column that has none of its own. -/
def standardLimit : Int := 50

/-- A text of at most `limit` characters, if the limit leaves room for the dots. -/
def shorten (limit : Int) (s : String) : String :=
  if limit < s.length then cutAt (limit - 3) s ++ "..." else s

def padEnd (width : Nat) (s : String) : String :=
  s ++ String.ofList (List.replicate (width - s.length) ' ')

/-- A column is found in the rows by its name. -/
structure Column where
  name : String
  limit : Int
  deriving Repr

def Column.cell (c : Column) (row : Properties) : String :=
  shorten c.limit (((row.lookup c.name).map cellText).getD "")

def Column.width (c : Column) (rows : List Properties) : Nat :=
  rows.foldl (fun width row => max width (c.cell row).length) c.name.length

def line (cells : List String) : String := joinWith "  " cells

/-- Names in capitals, a rule, and a line for every row; nothing if there are no rows. -/
def text (columns : List Column) (rows : List Properties) : String :=
  if rows.isEmpty then ""
  else
    let widths := columns.map fun c => (c, c.width rows)
    let header := line (widths.map fun (c, width) => padEnd width (upper c.name))
    let rule := line (widths.map fun (_, width) => String.ofList (List.replicate width '-'))
    let body := rows.map fun row => line (widths.map fun (c, width) => padEnd width (c.cell row))
    joinWith "\n" (header :: rule :: body)

/-- Columns by name, with the limits of some of them. -/
def columns (names : List String) (limits : List (String × Int)) : List Column :=
  names.map fun name => ⟨name, (limits.lookup name).getD standardLimit⟩

end MarkdownVault.Table
