/-!
# Texts as lists of characters

Scanning works on `List Char`: a recognizer consumes characters and returns the rest. The
functions here trim, cut and search; the ones on `String` are the same functions behind
`String.toList` and `String.ofList`.
-/

namespace MarkdownVault.Text

/-- White space of every script, with the four ASCII separators U+001C to U+001F. -/
def isBlank (c : Char) : Bool :=
  let n := c.toNat
  (9 ≤ n && n ≤ 13) || (0x1C ≤ n && n ≤ 0x20) || n == 0x85 || n == 0xA0 || n == 0x1680 ||
    (0x2000 ≤ n && n ≤ 0x200A) || n == 0x2028 || n == 0x2029 || n == 0x202F || n == 0x205F ||
    n == 0x3000

def dropEndWhile (p : Char → Bool) (cs : List Char) : List Char :=
  (cs.reverse.dropWhile p).reverse

def trimStart (cs : List Char) : List Char := cs.dropWhile isBlank
def trimEnd (cs : List Char) : List Char := dropEndWhile isBlank cs
def trim (cs : List Char) : List Char := trimEnd (trimStart cs)

/-- Removes a character from both ends, as often as it stands there. -/
def trimChar (c : Char) (cs : List Char) : List Char :=
  dropEndWhile (· == c) (cs.dropWhile (· == c))

/-- The lines of a text; only a line feed ends a line. -/
def lines (cs : List Char) : List (List Char) := cs.splitOn '\n'

/-- The maximal runs of non-blank characters. -/
def words (cs : List Char) : List (List Char) :=
  go cs []
where
  go : List Char → List Char → List (List Char)
    | [], word => if word.isEmpty then [] else [word.reverse]
    | c :: cs, word =>
      if isBlank c then
        if word.isEmpty then go cs [] else word.reverse :: go cs []
      else go cs (c :: word)

/-- What follows `start`, if the text begins with it. -/
def dropStart? (start : List Char) (cs : List Char) : Option (List Char) :=
  if start.isPrefixOf cs then some (cs.drop start.length) else none

/-- The rest after the first occurrence of `mark`, the mark itself included in neither part. -/
def cutFirst? (mark : List Char) : List Char → Option (List Char × List Char)
  | [] => if mark.isEmpty then some ([], []) else none
  | c :: cs =>
    if mark.isPrefixOf (c :: cs) then some ([], (c :: cs).drop mark.length)
    else (cutFirst? mark cs).map fun (before, after) => (c :: before, after)

theorem length_dropWhile_le {α : Type} (p : α → Bool) (xs : List α) :
    (xs.dropWhile p).length ≤ xs.length := (List.dropWhile_sublist p).length_le

theorem length_cutFirst? {mark cs before after : List Char}
    (h : cutFirst? mark cs = some (before, after)) :
    before.length + mark.length + after.length = cs.length := by
  induction cs generalizing before with
  | nil =>
    unfold cutFirst? at h
    split at h <;> simp_all
  | cons c cs ih =>
    unfold cutFirst? at h
    split at h
    · rename_i hp
      have := (List.isPrefixOf_iff_prefix.1 hp).length_le
      simp only [Option.some.injEq, Prod.mk.injEq] at h
      rw [← h.1, ← h.2]
      simp at this ⊢
      omega
    · obtain ⟨⟨b, a⟩, hc, he⟩ := Option.map_eq_some_iff.1 h
      simp only [Prod.mk.injEq] at he
      have := ih (he.2 ▸ hc)
      rw [← he.1]
      simp
      omega

/-- Whether `part` stands somewhere in the text. -/
def hasPart (part cs : List Char) : Bool := (cutFirst? part cs).isSome

/-- Every occurrence of `old`, from the left and without overlap, becomes `new`. -/
def replaceChar (old new : Char) (cs : List Char) : List Char :=
  cs.map fun c => if c = old then new else c

end MarkdownVault.Text

namespace MarkdownVault

/-- A function on characters as a function on strings. -/
def mapChars (f : List Char → List Char) (s : String) : String := String.ofList (f s.toList)

@[simp] theorem toList_mapChars (f : List Char → List Char) (s : String) :
    (mapChars f s).toList = f s.toList := by simp [mapChars]

/-- Joins texts with a separator between each two. -/
def joinWith (separator : String) (texts : List String) : String :=
  String.ofList (List.intercalate separator.toList (texts.map String.toList))

@[simp] theorem toList_joinWith (separator : String) (texts : List String) :
    (joinWith separator texts).toList =
      List.intercalate separator.toList (texts.map String.toList) := by simp [joinWith]

theorem joinWith_cons_cons (separator first second : String) (rest : List String) :
    joinWith separator (first :: second :: rest) =
      first ++ separator ++ joinWith separator (second :: rest) := by
  simp [joinWith, List.intercalate_cons_cons, String.append_assoc]

/-- The first `n` characters. -/
def takeChars (n : Nat) (s : String) : String := mapChars (List.take n) s

/-- All but the first `n` characters. -/
def dropChars (n : Nat) (s : String) : String := mapChars (List.drop n) s

def startsWith (s start : String) : Bool := start.toList.isPrefixOf s.toList
def endsWith (s ending : String) : Bool := ending.toList.isSuffixOf s.toList
def hasPart (s part : String) : Bool := Text.hasPart part.toList s.toList
def trim (s : String) : String := mapChars Text.trim s

/-- Whether a text holds nothing but white space. -/
def isBlankText (s : String) : Bool := s.toList.all Text.isBlank

/-- Code point order, the order of every sorted listing. -/
def textLe (a b : String) : Bool := a == b || decide (a < b)

end MarkdownVault
