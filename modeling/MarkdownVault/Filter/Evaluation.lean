import MarkdownVault.Filter.Condition
import MarkdownVault.Filter.Record
import MarkdownVault.Note.Tag

/-!
# Evaluating filters

A condition holds for a record or does not; the only faults are those of the values compared. A
text that is no expression, an unknown function and a function with too few arguments count as
false.
-/

namespace MarkdownVault.Filter

open MarkdownVault (Record)

namespace Operand

def value (r : Record) : Operand → Value
  | constant v _ => v
  | fileProperty name _ => r.fileProperty name
  | property name => r.noteProperty name

/-- The text of an argument: a constant's own text form, a bare word as it is written. -/
def argument : Operand → Except ValueFault String
  | constant v _ => v.asText
  | fileProperty _ text => .ok text
  | property name => .ok name

end Operand

def ordered (op : Comparison) (a b : Binary64) : Bool :=
  match op with
  | .gt => b.lt a
  | .lt => a.lt b
  | .ge => b.le a
  | .le => a.le b
  | _ => false

/-- Equality compares texts, order compares numbers. -/
def Comparison.compare (op : Comparison) (left right : Value) : Except ValueFault Bool :=
  match op with
  | .eq => do return (← left.asText) == (← right.asText)
  | .ne => do return (← left.asText) != (← right.asText)
  | op => do return ordered op (← left.asNumber) (← right.asNumber)

/-- The first argument as a property's text and the second as written. -/
def textArguments (r : Record) : List Operand → Except ValueFault (Option (String × String))
  | a :: b :: _ => do return some (← (a.value r).asText, ← b.argument)
  | _ => .ok none

/-- Whether a folder is `folder` or lies below it. -/
def inFolder (place folder : String) : Bool :=
  let folder := mapChars (Text.trimChar '/') folder
  place == folder || startsWith place (folder ++ "/")

/-- The built-in functions. The first two accept any number of arguments and hold if one of them
does. -/
def call (r : Record) (name : String) (args : List Operand) : Except ValueFault Bool :=
  match name with
  | "file.hasTag" => args.anyM fun a => do return r.tags.contains (Note.bareTag (← a.argument))
  | "file.hasLink" => args.anyM fun a => do return r.links.contains (← a.argument)
  | "file.inFolder" => match args with
    | [] => .ok false
    | a :: _ => do return inFolder r.folder (← a.argument)
  | "contains" => do match ← textArguments r args with
    | some (text, part) => return hasPart (lower text) (lower part)
    | none => return false
  | "startsWith" => do match ← textArguments r args with
    | some (text, start) => return startsWith text start
    | none => return false
  | "endsWith" => do match ← textArguments r args with
    | some (text, ending) => return endsWith text ending
    | none => return false
  | _ => .ok false

mutual

def Expression.eval (r : Record) : Expression → Except ValueFault Bool
  | .all parts => evalAll r parts
  | .any parts => evalAny r parts
  | .negate operand => do return !(← operand.eval r)
  | .call name args => Filter.call r name args
  | .compare left op right => op.compare (left.value r) (right.value r)
  | .truthy v => (v.value r).holds

/-- Stops at the first part that does not hold. -/
def evalAll (r : Record) : List Expression → Except ValueFault Bool
  | [] => .ok true
  | e :: es => do if ← e.eval r then evalAll r es else return false

/-- Stops at the first part that holds. -/
def evalAny (r : Record) : List Expression → Except ValueFault Bool
  | [] => .ok false
  | e :: es => do if ← e.eval r then return true else evalAny r es

end

/-- A text that is no expression does not hold. -/
def evalText (r : Record) (text : String) : Except ValueFault Bool :=
  match parse (trim text) with
  | .ok e => e.eval r
  | .error _ => .ok false

mutual

def Condition.eval (r : Record) : Condition → Except ValueFault Bool
  | .literal text => evalText r text
  | .all items => holdAll r items
  | .any items => holdAny r items
  | .none items => do return !(← holdAny r items)

/-- Stops at the first item that does not hold. -/
def holdAll (r : Record) : List Condition → Except ValueFault Bool
  | [] => .ok true
  | c :: cs => do if ← c.eval r then holdAll r cs else return false

/-- Stops at the first item that holds. -/
def holdAny (r : Record) : List Condition → Except ValueFault Bool
  | [] => .ok false
  | c :: cs => do if ← c.eval r then return true else holdAny r cs

end

/-- No condition holds always. -/
def holds (r : Record) : Option Condition → Except ValueFault Bool
  | none => .ok true
  | some c => c.eval r

/-- Evaluates a filter as it is written. -/
def evalValue (r : Record) (filter : Value) : Except ValueFault Bool :=
  holds r (Condition.ofValue? filter)

end MarkdownVault.Filter
