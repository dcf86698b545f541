import MarkdownVault.Proofs.Lookup
import MarkdownVault.Text.LetterCase

/-!
# Characters that letter case leaves alone

Slashes and line feeds are images of no other characters, so a change of letter case neither brings
them into a text nor takes them out of it.
-/

namespace MarkdownVault

namespace Text

variable {c d : Char}

theorem toNat_of_ofNat {n : Nat} (hd : d ≠ '\x00') (h : Char.ofNat n = d) : n = d.toNat := by
  rw [Char.ofNat] at h
  by_cases hvalid : n.isValidChar
  · rw [dif_pos hvalid] at h
    exact congrArg Char.toNat h
  · rw [dif_neg hvalid] at h
    exact absurd h.symm hd

/-- A character that is not in the tables is the image of no other one. -/
theorem eq_of_mem_mapCase {special : List (Nat × List Nat)} {runs : List CaseRun}
    (hd : d ≠ '\x00') (hspecial : ∀ e ∈ special, d.toNat ∉ e.2)
    (hruns : ∀ r ∈ runs, d.toNat < r.2.2.2) (h : d ∈ mapCase special runs c) : c = d := by
  rw [mapCase] at h
  cases hlookup : special.lookup c.toNat with
  | some image =>
    simp only [hlookup, List.mem_map] at h
    obtain ⟨n, hn, hchar⟩ := h
    exact absurd (toNat_of_ofNat hd hchar ▸ hn) (hspecial _ (mem_of_lookup hlookup))
  | none =>
    cases himage : caseImage? runs c.toNat with
    | some n =>
      simp only [hlookup, himage, List.mem_singleton] at h
      obtain ⟨⟨first, last, step, image⟩, hrun, hn⟩ := Option.map_eq_some_iff.1 himage
      have hlt : d.toNat < image := hruns _ (List.mem_of_find?_eq_some hrun)
      have hchar := toNat_of_ofNat hd h.symm
      simp only at hn
      omega
    | none => simpa [hlookup, himage, eq_comm] using h

/-- A case of ASCII characters that gives `d` for one of them alone gives it for no other. -/
theorem eq_of_mem_ascii {f : Char → Char} {n : Nat} (hascii : c.toNat < 0x80)
    (hall : ∀ m < 0x80, f (Char.ofNat m) = d → m = n) (h : d ∈ [f c]) : c = Char.ofNat n := by
  rw [List.mem_singleton, eq_comm, ← Char.ofNat_toNat c] at h
  rw [← Char.ofNat_toNat c, hall c.toNat hascii h]

theorem slash_mem_lowerChar : '/' ∈ lowerChar c ↔ c = '/' := by
  constructor
  · rw [lowerChar]
    split
    case isTrue hascii =>
      exact @eq_of_mem_ascii c '/' Char.toLower 47 hascii (by decide)
    case isFalse => exact eq_of_mem_mapCase (by decide) (by decide) (by decide +kernel)
  · rintro rfl
    decide

theorem slash_mem_lowerAfter (before cs : List Char) : '/' ∈ lowerAfter before cs ↔ '/' ∈ cs := by
  induction cs generalizing before with
  | nil => rfl
  | cons c cs ih =>
    rw [lowerAfter, List.mem_append, ih, List.mem_cons]
    refine or_congr_left ?_
    split
    case isTrue hsigma =>
      subst hsigma
      rw [lowerSigma]
      split <;> decide
    case isFalse => rw [slash_mem_lowerChar, eq_comm]

theorem break_mem_upperChar : '\n' ∈ upperChar c ↔ c = '\n' := by
  constructor
  · rw [upperChar]
    split
    case isTrue hascii =>
      exact @eq_of_mem_ascii c '\n' Char.toUpper 10 hascii (by decide)
    case isFalse => exact eq_of_mem_mapCase (by decide) (by decide +kernel) (by decide +kernel)
  · rintro rfl
    decide

end Text

variable {s : String}

theorem slash_mem_lower : '/' ∈ (lower s).toList ↔ '/' ∈ s.toList := by
  rw [lower, toList_mapChars]
  exact Text.slash_mem_lowerAfter [] s.toList

theorem break_mem_upper : '\n' ∈ (upper s).toList ↔ '\n' ∈ s.toList := by
  rw [upper, toList_mapChars, Text.upper, List.mem_flatMap]
  simp only [Text.break_mem_upperChar, exists_eq_right]

end MarkdownVault
