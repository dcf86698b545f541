import MarkdownVault.Value.Field
import MarkdownVault.Value.Json

/-!
# Values for other programs

What JSON has no form for is replaced before a document is handed on: calendar values and bytes by
texts, sets by lists, numbers that are not finite by null, and keys by texts.
-/

namespace MarkdownVault

/-- The ISO form, with a letter in place of an offset of zero. -/
def Moment.exchangeText (t : Moment) : String :=
  if t.offset = some 0 then Moment.text { t with offset := none } ++ "Z" else t.text

namespace Value

/-- A key as a text; bytes must be in UTF-8. -/
def exchangeKey? : Value → Option String
  | .null => some "None"
  | .bool b => some (if b then "true" else "false")
  | .int n => some (intText n)
  | .float x => some x.text
  | .text s => some s
  | .date d => some d.text
  | .moment t => some t.exchangeText
  | .bytes data => utf8Text? data
  | v => some v.shown

def exchangeScalar? : Value → Option Value
  | .float (.finite a m e) => some (.float (.finite a m e))
  | .float _ => some .null
  | .date d => some (.text d.text)
  | .moment t => some (.text t.exchangeText)
  | .bytes data => (utf8Text? data).map .text
  | .enclosing _ => none
  | v => some v

mutual

/-- The document, unless it holds bytes that are no text or a collection that holds itself. -/
def exchange? : Value → Option Value
  | .list items => (exchangeItems? items).map .list
  | .set items => (exchangeItems? items).map .list
  | .map entries => (exchangeEntries? [] entries).map ofProperties
  | v => exchangeScalar? v

def exchangeItems? : List Value → Option (List Value)
  | [] => some []
  | v :: vs => do return (← exchange? v) :: (← exchangeItems? vs)

/-- Of keys that become the same text the last one has the value. -/
def exchangeEntries? (done : Properties) : List (Value × Value) → Option Properties
  | [] => some done
  | (k, v) :: es => do exchangeEntries? (done.put (← exchangeKey? k) (← exchange? v)) es

end

end Value

end MarkdownVault
