import MarkdownVault.Filter.Expression

/-!
# Structured conditions

A filter is written as a text of the filter language or as nested `and`, `or` and `not` lists of
such texts. Reading accepts every value; writing gives back one of the forms that reading maps
to the same condition.
-/

namespace MarkdownVault.Filter

inductive Condition where
  | literal (text : String)
  | all (items : List Condition)
  | any (items : List Condition)
  /-- Holds when none of the items does. -/
  | none (items : List Condition)
  deriving Repr, Inhabited, BEq

namespace Condition

mutual

/-- Reads a condition. Null and blank texts are no condition; other scalars are their texts; a
list asks for all of its items; a mapping is taken by its first key among `and`, `or` and `not`;
anything else holds always. No value that holds itself is read as a condition: it has no end. -/
def ofValue? : Value → Option Condition
  | .null => .none
  | .text s => if isBlankText s then .none else some (.literal s)
  | .bool b => some (.literal (if b then "true" else "false"))
  | .int n => some (.literal (Value.intText n))
  | .float x => some (.literal (Value.numberText x))
  | .list items => some (.all (ofValues items))
  | .map entries => match itemsUnder? "and" entries with
    | some items => some (.all items)
    | Option.none => match itemsUnder? "or" entries with
      | some items => some (.any items)
      | Option.none => match itemsUnder? "not" entries with
        | some items => some (.none items)
        | Option.none => some (.all [])
  | _ => some (.all [])

/-- The conditions among some values. -/
def ofValues : List Value → List Condition
  | [] => []
  | v :: vs => (ofValue? v).toList ++ ofValues vs

/-- The conditions under a key; a value that is no list counts as its only item. -/
def itemsUnder? (key : String) : List (Value × Value) → Option (List Condition)
  | [] => .none
  | (.text k, .list items) :: es =>
    if k = key then some (ofValues items) else itemsUnder? key es
  | (.text k, v) :: es => if k = key then some (ofValue? v).toList else itemsUnder? key es
  | _ :: es => itemsUnder? key es

end

mutual

/-- Writes a condition as a text or as a mapping with one key. -/
def toValue : Condition → Value
  | literal text => .text text
  | all items => .map [(.text "and", .list (toValues items))]
  | any items => .map [(.text "or", .list (toValues items))]
  | none items => .map [(.text "not", .list (toValues items))]

def toValues : List Condition → List Value
  | [] => []
  | c :: cs => toValue c :: toValues cs

end

end Condition

end MarkdownVault.Filter
