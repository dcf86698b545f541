import MarkdownVault.Value.Coercion

/-!
# The order of values in a sorted view

Missing values come first. Two numbers compare by value, exactly; all other pairs compare by
their texts, first without and then with letter case.
-/

namespace MarkdownVault.Value

/-- Exact order of two numbers, integers of any size included; nothing compares with NaN. -/
def compareNumbers? : Value → Value → Option Ordering
  | .int a, .int b => some (compare a b)
  | .int a, .float y => (y.compareExact? a).map Ordering.swap
  | .float x, .int b => x.compareExact? b
  | .float x, .float y => x.compare? y
  | _, _ => none

def compareTexts (a b : String) : Ordering :=
  if a < b then .lt else if a = b then .eq else .gt

/-- Letter case decides only between texts that are otherwise the same. -/
def compareFolded (a b : String) : Ordering :=
  (compareTexts (fold a) (fold b)).then (compareTexts a b)

def compareForSort (a b : Value) : Except ValueFault Ordering :=
  if a.isNull then .ok (if b.isNull then .eq else .lt)
  else if b.isNull then .ok .gt
  else if a.isNumber && b.isNumber then .ok ((compareNumbers? a b).getD .gt)
  else do return compareFolded (← asText a) (← asText b)

end MarkdownVault.Value
