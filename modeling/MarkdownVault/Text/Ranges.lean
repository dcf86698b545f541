/-!
# Tables of code points

A character class of a standard is a list of inclusive ranges, a letter case map a list of runs.
-/

namespace MarkdownVault.Text

/-- Inclusive ranges of code points, in increasing order. -/
abbrev Ranges := List (Nat × Nat)

def Ranges.has (rs : Ranges) (n : Nat) : Bool :=
  rs.any fun r => r.1 ≤ n && n ≤ r.2

/-- First and last code point of a run, the step between its members, and the image of the
first; all members move by the same distance. -/
abbrev CaseRun := Nat × Nat × Nat × Nat

/-- The image of a code point, if one of the runs holds it. -/
def caseImage? (runs : List CaseRun) (n : Nat) : Option Nat :=
  (runs.find? fun (first, last, step, _) =>
    first ≤ n && n ≤ last && (n - first) % step == 0).map fun (first, _, _, image) =>
      n - first + image

end MarkdownVault.Text
