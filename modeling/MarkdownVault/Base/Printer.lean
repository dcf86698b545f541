import MarkdownVault.Base.Definition
import MarkdownVault.Yaml.Printer

/-!
# Bases as texts

The fields of a base and of its views are written in a fixed order, unknown ones last. Those that
are null are left out; nulls deeper down stay.
-/

namespace MarkdownVault

def Properties.given (ps : Properties) : Properties := ps.filter fun p => !p.2.isNull

def View.writtenFields (v : View) : Properties := v.fields.given

def Base.writtenFields (b : Base) : Properties :=
  (b.fieldsWith (b.views.map View.writtenFields)).given

def Base.entries (b : Base) : List (Value × Value) :=
  b.writtenFields.map fun (k, v) => (.text k, v)

def Base.text (b : Base) : String := Yaml.documentText b.entries

end MarkdownVault
