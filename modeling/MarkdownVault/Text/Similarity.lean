import MarkdownVault.Text.Basic

/-!
# Similar texts

Two texts are compared by their longest common block, by the longest common blocks to the left and
to the right of it, and so on. They are as similar as these blocks cover them.
-/

namespace MarkdownVault.Text

def commonStart : List Char → List Char → Nat
  | a :: as, b :: bs => if a = b then commonStart as bs + 1 else 0
  | _, _ => 0

/-- A run of characters that two texts share: where it starts in each, and its length. -/
structure Block where
  left : Nat
  right : Nat
  size : Nat
  deriving DecidableEq, Repr

/-- The longest block, of several the one that starts first. -/
def longestBlock (a b : List Char) : Block :=
  let starts := (List.range a.length).flatMap fun i => (List.range b.length).map fun j => (i, j)
  starts.foldl (fun best (i, j) =>
    let size := commonStart (a.drop i) (b.drop j)
    if best.size < size then ⟨i, j, size⟩ else best) ⟨0, 0, 0⟩

/-- How many characters the blocks cover; `depth` bounds the blocks inside one another. -/
def covered : Nat → List Char → List Char → Nat
  | 0, _, _ => 0
  | depth + 1, a, b =>
    let block := longestBlock a b
    if block.size = 0 then 0
    else covered depth (a.take block.left) (b.take block.right) + block.size +
      covered depth (a.drop (block.left + block.size)) (b.drop (block.right + block.size))

/-- The share of both texts that is covered, as numerator and denominator. -/
def similarity (a b : List Char) : Nat × Nat :=
  (2 * covered a.length a b, a.length + b.length)

/-- Whether at least three fifths of both texts are covered. -/
def isSimilar (a b : List Char) : Bool :=
  let (n, d) := similarity a b
  3 * d ≤ 5 * n

end MarkdownVault.Text

namespace MarkdownVault

/-- Whether the first candidate is at least as similar to a text as the second; of equally similar
ones the one later in code point order is preferred. -/
def isCloser (s a b : String) : Bool :=
  let (n, d) := Text.similarity a.toList s.toList
  let (m, e) := Text.similarity b.toList s.toList
  m * d < n * e || (m * d == n * e && textLe b a)

/-- The candidates similar to a text, the most similar one first. -/
def similarTo (s : String) (candidates : List String) : List String :=
  (candidates.filter fun c => Text.isSimilar c.toList s.toList).mergeSort (isCloser s)

end MarkdownVault
