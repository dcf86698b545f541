import MarkdownVault.Vault.Path

/-!
# Routes through folders

A route lists the names on the way down from a top folder. A path in text form is followed from a
starting route part by part: a single dot stays, two dots go up, and above the top is the top.
-/

namespace MarkdownVault

abbrev Route := List String

namespace Route

/-- The parts of a path between its slashes. Empty ones and single dots lead nowhere. -/
def parts (path : String) : List String :=
  ((path.toList.splitOn '/').map String.ofList).filter fun part => part != "" && part != "."

def step (route : Route) (part : String) : Route :=
  if part = ".." then route.dropLast else route ++ [part]

/-- Where a path leads from a starting route. -/
def follow (start : Route) (path : String) : Route := (parts path).foldl step start

/-- The rest of a route behind a route that it begins with. -/
def below? (root route : Route) : Option Route :=
  if root.isPrefixOf route then some (route.drop root.length) else none

def text (route : Route) : String := joinWith "/" route

theorem below?_eq_some_iff {root route rest : Route} :
    below? root route = some rest ↔ route = root ++ rest := by
  simp only [below?, List.isPrefixOf_iff_prefix]
  constructor
  · intro h
    split at h
    · rename_i hp
      obtain ⟨tail, rfl⟩ := hp
      simpa using h
    · simp at h
  · rintro rfl
    simp

end Route

end MarkdownVault
