import MarkdownVault.Text.Basic
import MarkdownVault.Text.CaseTable

/-!
# Changing letter case

Full case maps: a character may become several, and a capital sigma has two lower forms. Two
texts that fold to the same text differ in letter case only.
-/

namespace MarkdownVault.Text

def isCased (c : Char) : Bool := c.isAlpha || (0x80 ≤ c.toNat && casedRanges.has c.toNat)
def isCaseIgnorable (c : Char) : Bool := caseIgnorableRanges.has c.toNat

/-- Looks the character up among the special cases, then among the runs. -/
def mapCase (special : List (Nat × List Nat)) (runs : List CaseRun) (c : Char) : List Char :=
  match special.lookup c.toNat with
  | some image => image.map Char.ofNat
  | none => match caseImage? runs c.toNat with
    | some n => [Char.ofNat n]
    | none => [c]

def lowerChar (c : Char) : List Char :=
  if c.toNat < 0x80 then [c.toLower] else mapCase lowerSpecial lowerRuns c

def upperChar (c : Char) : List Char :=
  if c.toNat < 0x80 then [c.toUpper] else mapCase upperSpecial upperRuns c

def foldChar (c : Char) : List Char :=
  if c.toNat < 0x80 then [c.toLower] else mapCase foldSpecial foldRuns c

/-- Whether the nearest character that is not ignorable carries case. -/
def casedNext (cs : List Char) : Bool := ((cs.dropWhile isCaseIgnorable).head?.map isCased).getD false

/-- A capital sigma ends a word: a cased letter stands before it and none after it. -/
def lowerSigma (before after : List Char) : Char :=
  if casedNext before && !casedNext after then 'ς' else 'σ'

def lowerAfter : List Char → List Char → List Char
  | _, [] => []
  | before, c :: cs =>
    (if c = 'Σ' then [lowerSigma before cs] else lowerChar c) ++ lowerAfter (c :: before) cs

def lower (cs : List Char) : List Char := lowerAfter [] cs
def upper (cs : List Char) : List Char := cs.flatMap upperChar
def fold (cs : List Char) : List Char := cs.flatMap foldChar

end MarkdownVault.Text

namespace MarkdownVault

def lower (s : String) : String := mapChars Text.lower s
def upper (s : String) : String := mapChars Text.upper s

/-- The text with all differences of letter case removed. -/
def fold (s : String) : String := mapChars Text.fold s

end MarkdownVault
