import MarkdownVault.Text.WordChar
import MarkdownVault.Text.Basic

/-!
# Role markers

A message of an exported conversation opens with its speaker in bold and a colon, as in
`**User**:`. The name may carry an annotation in parentheses.
-/

namespace MarkdownVault.Conversation

/-- The rest after `**`, blanks and a colon. -/
def markerEnd? (cs : List Char) : Option (List Char) :=
  match Text.dropStart? ['*', '*'] cs with
  | none => none
  | some rest => match rest.dropWhile Text.isBlank with
    | ':' :: rest => some rest
    | _ => none

/-- What follows an opening parenthesis: the annotation up to the first closing parenthesis that
the end of a marker stands behind. Only with `acrossLines` may it hold a line feed. -/
def aside? (acrossLines : Bool) : List Char → Option (List Char × List Char)
  | [] => none
  | c :: cs =>
    match if c = ')' then markerEnd? cs else none with
    | some rest => some ([c], rest)
    | none =>
      if c = '\n' && !acrossLines then none
      else (aside? acrossLines cs).map fun (text, rest) => (c :: text, rest)

/-- A marker at the start of a text: the speaker as written and the text behind the colon. -/
def marker? (acrossLines : Bool) (cs : List Char) : Option (List Char × List Char) :=
  match Text.dropStart? ['*', '*'] cs with
  | none => none
  | some cs =>
    let name := cs.takeWhile Text.isWordChar
    let after := cs.dropWhile Text.isWordChar
    if name.isEmpty then none
    else
      let blanks := after.takeWhile Text.isBlank
      let annotated := match after.dropWhile Text.isBlank with
        | '(' :: rest => (aside? acrossLines rest).map fun (text, rest) =>
          (name ++ blanks ++ '(' :: text, rest)
        | _ => none
      match annotated with
      | some found => some found
      | none => (markerEnd? after).map (name, ·)

theorem length_dropStart? {start cs rest : List Char} (h : Text.dropStart? start cs = some rest) :
    rest.length ≤ cs.length := by
  unfold Text.dropStart? at h
  split at h <;> simp_all
  rw [← h]
  simp

theorem length_markerEnd? {cs rest : List Char} (h : markerEnd? cs = some rest) :
    rest.length < cs.length := by
  unfold markerEnd? at h
  split at h
  · simp at h
  · rename_i tail ht
    have h₁ := length_dropStart? ht
    have h₂ := Text.length_dropWhile_le Text.isBlank tail
    split at h
    · rename_i heq
      rw [heq] at h₂
      simp at h h₂
      rw [← h]
      omega
    · simp at h

theorem length_aside? {acrossLines : Bool} {cs text rest : List Char}
    (h : aside? acrossLines cs = some (text, rest)) : rest.length < cs.length := by
  induction cs generalizing text with
  | nil => simp [aside?] at h
  | cons c cs ih =>
    unfold aside? at h
    split at h
    · rename_i found hm
      split at hm
      · have := length_markerEnd? hm
        simp only [Option.some.injEq, Prod.mk.injEq] at h
        rw [← h.2]
        simp
        omega
      · simp at hm
    · split at h
      · simp at h
      · obtain ⟨⟨t, r⟩, ha, he⟩ := Option.map_eq_some_iff.1 h
        simp only [Prod.mk.injEq] at he
        have := ih (he.2 ▸ ha)
        simp
        omega

theorem length_marker? {acrossLines : Bool} {cs speaker rest : List Char}
    (h : marker? acrossLines cs = some (speaker, rest)) : rest.length < cs.length := by
  unfold marker? at h
  split at h
  · simp at h
  · rename_i inner hd
    have h₁ := length_dropStart? hd
    have h₂ := Text.length_dropWhile_le Text.isWordChar inner
    have h₃ := Text.length_dropWhile_le Text.isBlank (inner.dropWhile Text.isWordChar)
    simp only at h
    split at h
    · simp at h
    · split at h
      · rename_i found hf
        split at hf
        · rename_i opened ho
          obtain ⟨⟨t, r⟩, ha, he⟩ := Option.map_eq_some_iff.1 hf
          have := length_aside? ha
          simp only [Option.some.injEq] at h
          rw [h, Prod.mk.injEq] at he
          rw [ho] at h₃
          simp at h₃ he
          rw [← he.2]
          omega
        · simp at hf
      · obtain ⟨r, hr, he⟩ := Option.map_eq_some_iff.1 h
        have := length_markerEnd? hr
        simp only [Prod.mk.injEq] at he
        rw [← he.2]
        omega

/-- The speakers of all markers at line starts, as written. -/
def markersFrom (lineStart : Bool) (cs : List Char) : List (List Char) :=
  match _h : if lineStart then marker? false cs else none with
  | some (speaker, rest) => speaker :: markersFrom false rest
  | none => match cs with
    | [] => []
    | c :: cs => markersFrom (c == '\n') cs
termination_by cs.length
decreasing_by
  · split at _h
    · exact length_marker? _h
    · simp at _h
  · simp

/-- The text without its first annotation: blanks and a parenthesis on one line. -/
def dropAside (cs : List Char) : List Char :=
  match cs with
  | [] => []
  | c :: rest =>
    match (c :: rest).dropWhile Text.isBlank with
    | '(' :: inner =>
      match (inner.dropWhile fun d => d != ')' && d != '\n') with
      | ')' :: after => after
      | _ => c :: dropAside rest
    | _ => c :: dropAside rest

/-- The name alone. -/
def speakerName (speaker : List Char) : String :=
  String.ofList (Text.trim (dropAside speaker))

/-- The speakers of a text in order, one for each marker. -/
def speakers (content : String) : List String :=
  (markersFrom true content.toList).map speakerName

end MarkdownVault.Conversation
