import MarkdownVault.Value.Json
import MarkdownVault.Text.Digit
import MarkdownVault.Text.LetterCase

/-!
# Values as texts, numbers and truth values

Filters compare values in one of two modes, by their texts or by their numbers. Both forms are
total up to the faults named in the type: a mapping whose keys cannot be sorted and a collection
that holds itself have no text, an integer beyond the finite numbers has no number.
-/

namespace MarkdownVault.Value

def numberText (x : Binary64) : String :=
  match x.toInt? with
  | some n => intText n
  | none => x.textWith "NaN" "Infinity"

mutual

/-- The text that equality compares: null is empty, whole numbers have no fraction, lists are
joined by commas, dates and moments have their ISO forms and mappings are sorted JSON. -/
def asText : Value → Except ValueFault String
  | .null => .ok ""
  | .bool b => .ok (if b then "true" else "false")
  | .int n => .ok (intText n)
  | .float x => .ok (numberText x)
  | .text s => .ok s
  | .date d => .ok d.text
  | .moment t => .ok t.text
  | .list items => do return joinWith "," (← itemTexts items)
  | .map entries => json .canonical (.map entries)
  | .enclosing _ => .error .endless
  | v => .ok (shown v)

def itemTexts : List Value → Except ValueFault (List String)
  | [] => .ok []
  | v :: vs => do return (← asText v) :: (← itemTexts vs)

end

/-- Splits off a sign. -/
def takeSign : List Char → Bool × List Char
  | '-' :: cs => (true, cs)
  | '+' :: cs => (false, cs)
  | cs => (false, cs)

/-- A whole exponent with an optional sign, nothing around it. -/
def readExponent? (cs : List Char) : Option Int :=
  let (negative, ds) := takeSign cs
  if ds.isEmpty || !ds.all Text.isDecimalDigit then none
  else
    let n := Int.ofNat (Text.digitsValue ds)
    some (if negative then -n else n)

/-- Reads digits with at most one point among or around them, and an optional exponent. The
digits may be of any script. -/
def numeral? (cs : List Char) : Option Binary64 := do
  let (negative, cs) := takeSign cs
  let (whole, cs) := cs.span Text.isDecimalDigit
  let (fraction, cs) := match cs with
    | '.' :: rest => rest.span Text.isDecimalDigit
    | _ => ([], cs)
  if whole.isEmpty && fraction.isEmpty then none
  let exponent ← match cs with
    | [] => some 0
    | c :: rest => if c = 'e' || c = 'E' then readExponent? rest else none
  return Binary64.ofDecimal negative (Text.digitsValue (whole ++ fraction))
    (exponent - Int.ofNat fraction.length)

/-- The number of a text: zero if it is blank, NaN if it is not written as a number. -/
def textNumber (s : String) : Binary64 :=
  let cs := Text.trim s.toList
  if cs.isEmpty then Binary64.zero false else (numeral? cs).getD .nan

/-- The number that ordering compares: dates and moments count milliseconds since 1970, and what
has no number is NaN, which no ordering holds for. -/
def asNumber : Value → Except ValueFault Binary64
  | .null => .ok (Binary64.zero false)
  | .bool b => .ok (Binary64.ofNat b.toNat)
  | .int n => match Binary64.ofInt? n with
    | some x => .ok x
    | none => .error .beyondNumbers
  | .float x => .ok x
  | .text s => .ok (textNumber s)
  | .date d => .ok d.start.epochMillis
  | .moment t => .ok t.epochMillis
  | _ => .ok .nan

/-- Null, false, zero, NaN, the empty text and the empty list do not hold. -/
def holds : Value → Except ValueFault Bool
  | .null => .ok false
  | .bool b => .ok b
  | .int n =>
    if n = 0 then .ok false
    else if (Binary64.ofInt? n).isSome then .ok true else .error .beyondNumbers
  | .float x => .ok (!x.isZero && !x.isNaN)
  | .text s => .ok (!s.isEmpty)
  | .list items => .ok (!items.isEmpty)
  | _ => .ok true

end MarkdownVault.Value
