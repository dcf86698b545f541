import MarkdownVault.Failure
import MarkdownVault.Text.Loose
import MarkdownVault.Vault.Path

/-!
# Paths as they are handed over

A path may be any string. One that holds a half of a surrogate pair has no encoding, and one that
holds a NUL character ends there for the file system; both are refused before anything is looked
for. Names are looked for from left to right, so the first name that cannot be handed on decides.
-/

namespace MarkdownVault

/-- A path. Halves that stand for bytes are left out, since here all names of files are texts. -/
structure Spelling extends Loose where
  noBytes : ∀ h, .inr h ∈ units → h.isByte = false

namespace Spelling

def ofText (s : String) : Spelling := ⟨.ofText s, by simp [Loose.ofText]⟩

instance : Coe String Spelling := ⟨ofText⟩

@[simp] theorem plain_ofText (s : String) : (ofText s).plain = s := Loose.plain_ofText s

@[simp] theorem isText_ofText (s : String) : (ofText s).isText := Loose.isText_ofText s

/-- What is wrong with the first name that cannot be handed on. In a name with both a half counts
before a NUL character; `nul` tells whether the name so far has one. -/
def flaw? (nul : Bool) : List (Char ⊕ Half) → Option Failure
  | [] => if nul then some .badPath else none
  | .inr _ :: _ => some .unencodable
  | .inl c :: us =>
    if nul && (c == '/' || c == '\\') then some .badPath else flaw? (nul || c == '\x00') us

/-- The path as the file system takes it. -/
def encode (path : Spelling) : Except Failure String :=
  match flaw? false path.units with
  | some f => .error f
  | none => .ok path.plain

/-- The path as a text, with NUL characters if it has any. -/
def text (path : Spelling) : Except Failure String :=
  if path.isText then .ok path.plain else path.encode

/-- The path with slashes for backslashes and without slashes in front. -/
def normalize (path : Spelling) : Spelling where
  units := (path.units.map fun u => if u = .inl '\\' then .inl '/' else u).dropWhile (· == .inl '/')
  noBytes h hmem := by
    obtain ⟨u, hu, heq⟩ := List.mem_map.1 ((List.dropWhile_sublist _).subset hmem)
    split at heq
    · cases heq
    · exact path.noBytes h (heq ▸ hu)

/-! ## Texts -/

theorem flaw?_map_inl (nul : Bool) (cs : List Char) :
    flaw? nul (cs.map .inl) = if nul || cs.contains '\x00' then some .badPath else none := by
  induction cs generalizing nul with
  | nil => simp [flaw?]
  | cons c cs ih =>
    rw [List.map_cons, flaw?, ih]
    cases nul with
    | true => simp
    | false => simp [@eq_comm _ c]

@[simp] theorem encode_ofText (s : String) :
    (ofText s).encode = if s.toList.contains '\x00' then .error .badPath else .ok s := by
  have hflaw : flaw? false (ofText s).units = _ := flaw?_map_inl false s.toList
  rw [encode, hflaw, plain_ofText, Bool.false_or]
  split <;> rename_i h <;> split at h <;> simp_all

@[simp] theorem text_ofText (s : String) : (ofText s).text = .ok s := by simp [text]

theorem flaw?_eq_none {nul : Bool} {us : List (Char ⊕ Half)} (h : flaw? nul us = none) :
    ∃ cs : List Char, us = cs.map .inl := by
  induction us generalizing nul with
  | nil => exact ⟨[], rfl⟩
  | cons u us ih =>
    cases u with
    | inr half => cases h
    | inl c =>
      rw [flaw?] at h
      split at h
      · cases h
      · obtain ⟨cs, rfl⟩ := ih h
        exact ⟨c :: cs, rfl⟩

/-- A path that is taken is a text without NUL characters. -/
theorem encode_eq_ok {path : Spelling} {s : String} (h : path.encode = .ok s) :
    path = ofText s ∧ '\x00' ∉ s.toList := by
  rw [encode] at h
  split at h
  case h_1 => cases h
  case h_2 hflaw =>
    cases h
    obtain ⟨cs, hcs⟩ := flaw?_eq_none hflaw
    have htext : path = ofText (String.ofList cs) := by
      obtain ⟨⟨us⟩, hbytes⟩ := path
      obtain rfl : us = cs.map .inl := hcs
      simp [ofText, Loose.ofText]
    rw [htext, plain_ofText, String.toList_ofList]
    refine ⟨rfl, fun hnul => ?_⟩
    rw [hcs, flaw?_map_inl] at hflaw
    simp [hnul] at hflaw

theorem flaw?_eq_some {nul : Bool} {us : List (Char ⊕ Half)} {f : Failure}
    (h : flaw? nul us = some f) : f = .badPath ∧ (nul ∨ .inl '\x00' ∈ us) ∨
      f = .unencodable ∧ ∃ half, .inr half ∈ us := by
  induction us generalizing nul with
  | nil =>
    obtain ⟨hnul, rfl⟩ : nul = true ∧ .badPath = f := by simpa [flaw?] using h
    exact .inl ⟨rfl, .inl hnul⟩
  | cons u us ih =>
    cases u with
    | inr half =>
      cases h
      exact .inr ⟨rfl, half, List.mem_cons_self⟩
    | inl c =>
      rw [flaw?] at h
      split at h
      case isTrue hend =>
        cases h
        exact .inl ⟨rfl, .inl (Bool.and_eq_true_iff.1 hend).1⟩
      case isFalse =>
        rcases ih h with ⟨rfl, hnul⟩ | ⟨rfl, half, hmem⟩
        · refine .inl ⟨rfl, ?_⟩
          rcases hnul with hnul | hmem
          · rcases Bool.or_eq_true_iff.1 hnul with hnul | hc
            · exact .inl hnul
            · exact .inr (eq_of_beq hc ▸ List.mem_cons_self)
          · exact .inr (List.mem_cons_of_mem _ hmem)
        · exact .inr ⟨rfl, half, List.mem_cons_of_mem _ hmem⟩

/-- A path is refused for a NUL character or for a half that stands alone. -/
theorem encode_eq_error {path : Spelling} {f : Failure} (h : path.encode = .error f) :
    f = .badPath ∧ .inl '\x00' ∈ path.units ∨
      f = .unencodable ∧ ∃ half, .inr half ∈ path.units := by
  rw [encode] at h
  split at h
  case h_1 hflaw =>
    cases h
    simpa using flaw?_eq_some hflaw
  case h_2 => cases h

end Spelling

end MarkdownVault
