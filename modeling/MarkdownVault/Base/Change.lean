import MarkdownVault.Base.Printer

/-!
# Changing a base

A change replaces whole sections of a base and leaves the others alone. The changed base is read
again from its written fields, so that it obeys the same rules as one that comes from a file.
-/

namespace MarkdownVault

/-- New sections; null leaves the old one. -/
structure BaseChange where
  filters : Value
  formulas : Value
  views : Value
  properties : Value

namespace BaseChange

def none : BaseChange := ⟨.null, .null, .null, .null⟩

def sections (c : BaseChange) : Properties :=
  Properties.given [("filters", c.filters), ("formulas", c.formulas), ("views", c.views),
    ("properties", c.properties)]

end BaseChange

namespace Base

/-- The changed base, unless a section has the wrong shape. -/
def change? (b : Base) (c : BaseChange) : Option Base :=
  if c.sections.isEmpty then some b
  else ofValue? (.ofProperties (c.sections.foldl (fun ps (key, v) => ps.put key v) b.writtenFields))

/-- The base with other views, unless one of them has the wrong shape. -/
def withViews? (b : Base) (views : Value) : Option Base :=
  match views with
  | .null => some b
  | .list views => (views.mapM View.ofValue?).map fun views => { b with views }
  | _ => none

end Base

end MarkdownVault
