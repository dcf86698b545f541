import MarkdownVault.Base.Definition
import MarkdownVault.Formula
import MarkdownVault.Filter.Evaluation
import MarkdownVault.Sorting
import MarkdownVault.Value.Order

/-!
# Running a view

A view goes through fixed stages: the notes that match both filters, their formulas, the order,
the limit, and the columns. The total counts the matches before the limit.
-/

namespace MarkdownVault

/-- A note that matched, with the values of the formulas. -/
structure Match where
  record : Record
  computed : Computed

/-- What a view shows of a note. -/
structure Row where
  path : String
  name : String
  properties : Properties

structure QueryResult where
  rows : List Row
  total : Nat
  view : View

namespace Base

/-- Both filters hold, the base's and the view's. -/
def selects (b : Base) (v : View) (r : Record) : Except ValueFault Bool := do
  if ← Filter.evalValue r b.filters then Filter.evalValue r v.filters else return false

def compute (b : Base) (r : Record) : Except ValueFault Match := do
  let computed ← (b.formulas.getD []).mapM fun (name, formula) => do
    return (name, ← Formula.eval formula r)
  return ⟨r, computed⟩

end Base

namespace Match

def value (m : Match) (key : String) : Value := m.record.value key (some m.computed)

/-- The first key on which two matches differ decides. -/
def compare (keys : List SortKey) (a b : Match) : Except ValueFault Ordering :=
  match keys with
  | [] => .ok .eq
  | key :: keys => do
    match ← Value.compareForSort (a.value key.property) (b.value key.property) with
    | .eq => compare keys a b
    | o => return if key.direction = .desc then o.swap else o

def less (keys : List SortKey) (a b : Match) : Except ValueFault Bool := do
  return (← compare keys a b) == .lt

/-- The columns of a view that names none, besides the front matter and the formulas. -/
def fileColumns : List String :=
  ["file.name", "file.path", "file.folder", "file.tags", "file.mtime"]

def allColumns (m : Match) : Properties :=
  let file := fileColumns.map fun column => (column, m.record.value column none)
  let formulas := m.computed.map fun (name, v) => ("formula." ++ name, v)
  (file ++ formulas).foldl (fun ps (column, v) => ps.put column v) m.record.properties

def namedColumns (columns : List String) (m : Match) : Properties :=
  columns.foldl (fun ps column => ps.put column (m.value column)) []

def row (v : View) (m : Match) : Row :=
  let columns := v.columns.getD []
  { path := m.record.path
    name := m.record.name
    properties := if columns.isEmpty then m.allColumns else m.namedColumns columns }

end Match

/-- The rows of a view that has a limit above zero are cut off there. -/
def View.cut {α : Type} (v : View) (xs : List α) : List α :=
  match v.limit with
  | some limit => if 0 < limit then xs.take limit.toNat else xs
  | none => xs

def View.arrange (v : View) (ms : List Match) : Except ValueFault (List Match) :=
  match v.order.getD [] with
  | [] => .ok ms
  | keys => Sorting.sort (Match.less keys) ms

def Base.query (b : Base) (index : Int) (records : List Record) :
    Except ValueFault QueryResult := do
  let v := b.view index
  let selected ← records.filterM (b.selects v)
  let sorted ← v.arrange (← selected.mapM b.compute)
  return ⟨(v.cut sorted).map (Match.row v), sorted.length, v⟩

end MarkdownVault
