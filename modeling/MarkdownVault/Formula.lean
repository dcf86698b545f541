import MarkdownVault.Filter.Evaluation

/-!
# Formulas

A formula computes one value for a note: a property, the concatenation of texts and properties,
or the length of a property. Any other formula is its own value.
-/

namespace MarkdownVault

/-- Computed values of a note by name. -/
abbrev Computed := List (String × Value)

/-- Looks up `file.*`, a computed value behind `formula.` or `_formula_`, or a property of the
front matter. -/
def Record.value (r : Record) (key : String) (computed : Option Computed) : Value :=
  if startsWith key "file." then r.fileProperty (dropChars 5 key)
  else match computed with
    | none => r.noteProperty key
    | some cs =>
      if startsWith key "formula." then (cs.lookup (dropChars 8 key)).getD .null
      else if startsWith key "_formula_" then (cs.lookup (dropChars 9 key)).getD .null
      else r.noteProperty key

namespace Formula

/-- Whether a text begins and ends with the same quote. -/
def isQuoted (s : String) : Bool :=
  match s.toList with
  | c :: d :: cs => (c == '"' || c == '\'') && (d :: cs).getLast? == some c
  | _ => false

/-- The argument text of `name(...)`, if the formula has this form and the text is not empty. -/
def argumentOf? (name formula : String) : Option String :=
  match Text.dropStart? (name.toList ++ ['(']) formula.toList with
  | none => none
  | some cs =>
    if cs.getLast? = some ')' ∧ 1 < cs.length then some (String.ofList cs.dropLast) else none

/-- A quoted argument is the text between its quotes, a bare one the text of a property. -/
def concatPiece (r : Record) (arg : String) : Except ValueFault String :=
  if isQuoted arg then .ok (mapChars (fun cs => (cs.drop 1).dropLast) arg)
  else (r.value arg none).asText

def lengthOf : Value → Nat
  | .list items => items.length
  | .text s => s.length
  | _ => 0

/-- Whether a formula is a bare property: no parenthesis and no sign. -/
def isProperty (s : String) : Bool := !s.toList.any ['(', '+', '-'].contains

def eval (formula : String) (r : Record) : Except ValueFault Value :=
  let text := trim formula
  if isProperty text then .ok (r.value text none)
  else match argumentOf? "concat" text with
    | some args => match Filter.splitText .comma args with
      | .error _ => .ok (.text formula)
      | .ok args => do return .text (String.join (← args.mapM (concatPiece r)))
    | none => match argumentOf? "length" text with
      | some arg => .ok (.int (lengthOf (r.value (trim arg) none)))
      | none => .ok (.text formula)

end Formula

end MarkdownVault
