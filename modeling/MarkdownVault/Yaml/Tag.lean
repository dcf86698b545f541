import MarkdownVault.Value.Coercion

/-!
# Tags and the meaning of plain texts

A tag tells what kind of value a node denotes. A plain scalar without a tag gets one by its text:
it is a truth value, a number, a time, null or one of two special keys if it is written like one,
and a text otherwise.
-/

namespace MarkdownVault.Yaml

inductive Tag where
  | null
  | truth
  | int
  | float
  | bytes
  | time
  | pairs
  | set
  | text
  | list
  | map
  /-- A key whose value lends its entries to the mapping. -/
  | merge
  /-- The key of the default value of a mapping. -/
  | default
  | unknown
  deriving DecidableEq, Repr

namespace Tag

/-- The names of the known tags start with this. -/
def root : String := "tag:yaml.org,2002:"

def ofName (name : String) : Tag :=
  if !startsWith name root then unknown
  else match dropChars root.length name with
    | "null" => null
    | "bool" => truth
    | "int" => int
    | "float" => float
    | "binary" => bytes
    | "timestamp" => time
    | "omap" | "pairs" => pairs
    | "set" => set
    | "str" => text
    | "seq" => list
    | "map" => map
    | "merge" => merge
    | "value" => default
    | _ => unknown

/-! ## Truth values and null -/

def trueWords : List String := ["yes", "Yes", "YES", "true", "True", "TRUE", "on", "On", "ON"]
def falseWords : List String := ["no", "No", "NO", "false", "False", "FALSE", "off", "Off", "OFF"]
def nullWords : List String := ["", "~", "null", "Null", "NULL"]

/-! ## Numbers -/

def isDigitOrBar (c : Char) : Bool := c.isDigit || c == '_'

def isHexDigit (c : Char) : Bool :=
  c.isDigit || ('a' ≤ c && c ≤ 'f') || ('A' ≤ c && c ≤ 'F')

/-- A digit, then digits and underscores. -/
def isDigitRun : List Char → Bool
  | d :: cs => d.isDigit && cs.all isDigitOrBar
  | [] => false

/-- A number below sixty in one or two digits. -/
def isSixtieth : List Char → Bool
  | [d] => d.isDigit
  | [c, d] => '0' ≤ c && c ≤ '5' && d.isDigit
  | _ => false

/-- A digit run and at least one part below sixty after it, separated by colons. -/
def isSexagesimal (cs : List Char) : Bool :=
  match cs.splitOn ':' with
  | first :: part :: parts => isDigitRun first && (part :: parts).all isSixtieth
  | _ => false

def isNonzeroRun (cs : List Char) : Bool := isDigitRun cs && cs.head? != some '0'

/-- Binary, octal, decimal, hexadecimal and sexagesimal numbers with an optional sign. -/
def isIntText (cs : List Char) : Bool :=
  let cs := (Value.takeSign cs).2
  match cs with
  | '0' :: 'b' :: ds => !ds.isEmpty && ds.all fun c => c == '0' || c == '1' || c == '_'
  | '0' :: 'x' :: ds => !ds.isEmpty && ds.all fun c => isHexDigit c || c == '_'
  | '0' :: ds => ds.all fun c => ('0' ≤ c && c ≤ '7') || c == '_'
  | _ => isNonzeroRun cs || (isSexagesimal cs && cs.head? != some '0')

/-- Nothing, or `e` with a sign and digits. -/
def isExponent : List Char → Bool
  | [] => true
  | e :: sign :: ds =>
    (e == 'e' || e == 'E') && (sign == '+' || sign == '-') && !ds.isEmpty && ds.all Char.isDigit
  | _ => false

/-- Numbers with a point, sexagesimal ones included, and the names of the infinite ones. A number
that starts with its point has no sign. -/
def isFloatText (cs : List Char) : Bool :=
  let unsigned := (Value.takeSign cs).2
  let infinite := [".inf", ".Inf", ".INF"].any fun s => s.toList == unsigned
  let named := [".nan", ".NaN", ".NAN"].any fun s => s.toList == cs
  let (whole, point) := unsigned.span (· != '.')
  let fraction := point.drop 1
  let pointed := !point.isEmpty &&
    ((isDigitRun whole && isExponent (fraction.dropWhile isDigitOrBar)) ||
      (isSexagesimal whole && fraction.all isDigitOrBar))
  let bare := match cs with
    | '.' :: d :: ds => d.isDigit && isExponent (ds.dropWhile isDigitOrBar)
    | _ => false
  infinite || named || pointed || bare

/-! ## Times -/

/-- Digits at the start of a text, at least `least` and at most `most`. -/
def digitsUpTo? (least most : Nat) (cs : List Char) : Option (List Char × List Char) :=
  let digits := (cs.take most).takeWhile Char.isDigit
  if digits.length < least then none else some (digits, cs.drop digits.length)

def charThen? (c : Char) (cs : List Char) : Option (List Char) :=
  if cs.head? = some c then some (cs.drop 1) else none

/-- The time of day in a time text. `fraction` holds the digits behind the point; `offset` counts
minutes. -/
structure ClockText where
  hour : List Char
  minute : List Char
  second : List Char
  fraction : List Char
  offset : Option Int
  deriving Repr

structure TimeText where
  year : List Char
  month : List Char
  day : List Char
  clock : Option ClockText
  deriving Repr

def digitsNat (ds : List Char) : Nat := Text.digitsValue ds

def isTimeBlank (c : Char) : Bool := c == ' ' || c == '\t'

/-- The end of a time text: nothing, or a zone behind optional blanks. -/
def zone? (cs : List Char) : Option (Option Int) :=
  match cs with
  | [] => some none
  | cs => match cs.dropWhile isTimeBlank with
    | ['Z'] => some (some 0)
    | sign :: cs =>
      if sign = '+' ∨ sign = '-' then do
        let (hours, cs) ← digitsUpTo? 1 2 cs
        let minutes ← match cs with
          | [] => some []
          | cs => do
            let (minutes, cs) ← digitsUpTo? 2 2 (← charThen? ':' cs)
            if cs.isEmpty then some minutes else none
        let offset := Int.ofNat (digitsNat hours * 60 + digitsNat minutes)
        return some (if sign = '-' then -offset else offset)
      else none
    | [] => none

/-- What separates a date from the time of day. -/
def timeSeparator? (cs : List Char) : Option (List Char) :=
  match cs with
  | 'T' :: cs => some cs
  | 't' :: cs => some cs
  | c :: cs => if isTimeBlank c then some (cs.dropWhile isTimeBlank) else none
  | [] => none

def clock? (cs : List Char) : Option ClockText := do
  let (hour, cs) ← digitsUpTo? 1 2 cs
  let (minute, cs) ← digitsUpTo? 2 2 (← charThen? ':' cs)
  let (second, cs) ← digitsUpTo? 2 2 (← charThen? ':' cs)
  let (fraction, cs) := match cs with
    | '.' :: cs => cs.span Char.isDigit
    | cs => ([], cs)
  return { hour, minute, second, fraction, offset := ← zone? cs }

/-- A date, or a date and a time of day. -/
def timeText? (cs : List Char) : Option TimeText := do
  let (year, cs) ← digitsUpTo? 4 4 cs
  let (month, cs) ← digitsUpTo? 1 2 (← charThen? '-' cs)
  let (day, cs) ← digitsUpTo? 1 2 (← charThen? '-' cs)
  if cs.isEmpty then return { year, month, day, clock := none }
  return { year, month, day, clock := some (← clock? (← timeSeparator? cs)) }

/-- A date alone counts as a time only with all of its digits. -/
def isTimeText (cs : List Char) : Bool :=
  match timeText? cs with
  | none => false
  | some t => t.clock.isSome || (t.month.length == 2 && t.day.length == 2)

/-- The tag of a plain scalar that has none. -/
def ofPlain (s : String) : Tag :=
  let cs := s.toList
  if trueWords.contains s || falseWords.contains s then truth
  else if isFloatText cs then float
  else if isIntText cs then int
  else if s = "<<" then merge
  else if nullWords.contains s then null
  else if isTimeText cs then time
  else if s = "=" then default
  else text

end Tag

end MarkdownVault.Yaml
