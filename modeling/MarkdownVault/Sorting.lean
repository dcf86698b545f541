/-!
# Sorting by insertion

A stable sort for comparisons that may fail. The items at the front that are in order already, or
in strictly descending order, are taken together; every further item is put in its place by
halving. Where the comparison is no order, this fixes what comes out.
-/

namespace MarkdownVault.Sorting

variable {α ε : Type}

/-- Puts an item behind all items of a sorted list that it is not less than. -/
def insert (less : α → α → Except ε Bool) (x : α) (xs : List α) : Except ε (List α) :=
  match _h : xs.drop (xs.length / 2) with
  | [] => .ok [x]
  | middle :: after => do
    let before := xs.take (xs.length / 2)
    if ← less x middle then return (← insert less x before) ++ middle :: after
    else return before ++ middle :: (← insert less x after)
termination_by xs.length
decreasing_by
  all_goals
    have := congrArg List.length _h
    simp at this ⊢
    omega

/-- The items that continue a run: each one stands to the one before it as asked. The run comes
out in reverse. -/
def run (less : α → α → Except ε Bool) (descending : Bool) (last : α) (taken : List α) :
    List α → Except ε (List α × List α)
  | [] => .ok (last :: taken, [])
  | x :: xs => do
    if (← less x last) == descending then run less descending x (last :: taken) xs
    else return (last :: taken, x :: xs)

/-- The sorted front of a list, and the rest. -/
def front (less : α → α → Except ε Bool) : List α → Except ε (List α × List α)
  | x :: y :: xs => do
    let descending ← less y x
    let (taken, rest) ← run less descending y [x] xs
    return (if descending then taken else taken.reverse, rest)
  | xs => .ok (xs, [])

def sort (less : α → α → Except ε Bool) (xs : List α) : Except ε (List α) := do
  let (sorted, rest) ← front less xs
  rest.foldlM (fun sorted x => insert less x sorted) sorted

end MarkdownVault.Sorting
