import MarkdownVault.Text.Basic

/-!
# Links and embeds in a note

`[[target]]` and `[[target|alias]]` link to another note; the same with a `!` in front embeds it.
Links and embeds are looked for independently, each from left to right without overlap.
-/

namespace MarkdownVault.Note

def isTargetPart (c : Char) : Bool := c != ']' && c != '|'

def closingBrackets? : List Char → Option (List Char)
  | ']' :: ']' :: rest => some rest
  | _ => none

/-- What follows a target: possibly an alias after a bar, and `]]`. Gives the text behind. -/
def afterTarget? : List Char → Option (List Char)
  | '|' :: cs =>
    if (cs.takeWhile (· != ']')).isEmpty then none
    else closingBrackets? (cs.dropWhile (· != ']'))
  | cs => closingBrackets? cs

/-- What follows `[[`: a target and its end. Gives the target and the text behind. -/
def bracketed? (cs : List Char) : Option (List Char × List Char) :=
  if (cs.takeWhile isTargetPart).isEmpty then none
  else (afterTarget? (cs.dropWhile isTargetPart)).map (cs.takeWhile isTargetPart, ·)

theorem length_closingBrackets? {cs rest : List Char} (h : closingBrackets? cs = some rest) :
    rest.length < cs.length := by
  unfold closingBrackets? at h
  split at h
  · cases h
    simp only [List.length_cons]
    omega
  · cases h

theorem length_afterTarget? {cs rest : List Char} (h : afterTarget? cs = some rest) :
    rest.length < cs.length := by
  unfold afterTarget? at h
  split at h
  · rename_i cs
    split at h
    · simp at h
    · have := length_closingBrackets? h
      have := Text.length_dropWhile_le (· != ']') cs
      simp
      omega
  · exact length_closingBrackets? h

theorem length_bracketed? {cs target rest : List Char} (h : bracketed? cs = some (target, rest)) :
    rest.length < cs.length := by
  unfold bracketed? at h
  split at h
  · simp at h
  · obtain ⟨r, hr, he⟩ := Option.map_eq_some_iff.1 h
    have := length_afterTarget? hr
    have := Text.length_dropWhile_le isTargetPart cs
    simp only [Prod.mk.injEq] at he
    rw [← he.2]
    omega

/-- The raw targets of the links; `afterBang` tells whether the character before is a `!`. -/
def linkTargets (afterBang : Bool) : List Char → List (List Char)
  | [] => []
  | '[' :: '[' :: cs =>
    match _h : if afterBang then none else bracketed? cs with
    | some (target, rest) => target :: linkTargets false rest
    | none => linkTargets false ('[' :: cs)
  | c :: cs => linkTargets (c == '!') cs
termination_by cs => cs.length
decreasing_by
  · split at _h
    · simp at _h
    · have := length_bracketed? _h
      simp
      omega
  · simp
  · simp

/-- The raw targets of the embeds. -/
def embedTargets : List Char → List (List Char)
  | [] => []
  | '!' :: '[' :: '[' :: cs =>
    match _h : bracketed? cs with
    | some (target, rest) => target :: embedTargets rest
    | none => embedTargets ('[' :: '[' :: cs)
  | _ :: cs => embedTargets cs
termination_by cs => cs.length
decreasing_by
  · have := length_bracketed? _h
    simp
    omega
  · simp
  · simp

/-- Trimmed, each target once, in order of first appearance. -/
def distinctTargets (targets : List (List Char)) : List String :=
  (targets.map fun t => String.ofList (Text.trim t)).eraseDups

def linksOf (body : String) : List String := distinctTargets (linkTargets false body.toList)
def embedsOf (body : String) : List String := distinctTargets (embedTargets body.toList)

end MarkdownVault.Note
