import MarkdownVault.Text.WordChar
import MarkdownVault.Text.Basic

/-!
# Inline fields of a note

A line `key:: value` is a field. A key begins with an ASCII letter or an underscore and goes on
with word characters and blanks up to the first colon.
-/

namespace MarkdownVault.Note

/-- `line` counts from one. -/
structure Field where
  key : String
  value : String
  line : Nat
  deriving DecidableEq, Repr

def isKeyPart (c : Char) : Bool := Text.isWordChar c || Text.isBlank c

/-- Key and value of a line that is a field. -/
def fieldOf? (line : List Char) : Option (List Char × List Char) :=
  match line with
  | [] => none
  | c :: cs =>
    if !(c.isAlpha || c == '_') then none
    else match cs.dropWhile isKeyPart with
      | ':' :: ':' :: value => some (Text.trim (c :: cs.takeWhile isKeyPart), Text.trim value)
      | _ => none

def fieldsOf (body : String) : List Field :=
  (Text.lines body.toList).zipIdx.filterMap fun (line, i) =>
    (fieldOf? line).map fun (key, value) => ⟨String.ofList key, String.ofList value, i + 1⟩

end MarkdownVault.Note
