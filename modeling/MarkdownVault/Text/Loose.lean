/-!
# Strings that may be no text

A string may hold halves of surrogate pairs that stand alone. It is then no text and has no bytes.
-/

namespace MarkdownVault

/-- A half of a surrogate pair. -/
structure Half where
  code : Nat
  surrogate : 0xD800 ≤ code ∧ code ≤ 0xDFFF
  deriving DecidableEq, Repr

/-- Whether a half stands for a byte, in the name of a file that is no text. -/
def Half.isByte (h : Half) : Bool := 0xDC80 ≤ h.code && h.code ≤ 0xDCFF

structure Loose where
  units : List (Char ⊕ Half)
  deriving DecidableEq, Repr

namespace Loose

def ofText (s : String) : Loose := ⟨s.toList.map .inl⟩

instance : Coe String Loose := ⟨ofText⟩

/-- The characters; halves are left out. -/
def plain (s : Loose) : String := String.ofList (s.units.filterMap Sum.getLeft?)

def isText (s : Loose) : Bool := s.units.all Sum.isLeft

/-- The bytes of a text. -/
def bytes? (s : Loose) : Option ByteArray := if s.isText then some s.plain.toUTF8 else none

@[simp] theorem plain_ofText (s : String) : (ofText s).plain = s := by
  simp [plain, ofText, List.filterMap_map, Function.comp_def]

@[simp] theorem isText_ofText (s : String) : (ofText s).isText := by simp [ofText, isText]

@[simp] theorem bytes?_ofText (s : String) : (ofText s).bytes? = some s.toUTF8 := by
  rw [bytes?, if_pos (isText_ofText s), plain_ofText]

/-- A string whose characters are all there is is a text. -/
theorem eq_ofText_plain {s : Loose} (h : s.isText) : s = ofText s.plain := by
  obtain ⟨us⟩ := s
  have hleft : ∀ u ∈ us, u.isLeft := List.all_eq_true.1 h
  rw [ofText, plain, String.toList_ofList]
  congr 1
  induction us with
  | nil => rfl
  | cons u us ih =>
    obtain ⟨hu, hus⟩ := List.forall_mem_cons.1 hleft
    cases u with
    | inr half => cases hu
    | inl c => exact congrArg (.inl c :: ·) (ih (List.all_eq_true.2 hus) hus)

theorem bytes?_eq_some {s : Loose} {bytes : ByteArray} (h : s.bytes? = some bytes) :
    ∃ text : String, s = text ∧ text.toUTF8 = bytes := by
  rw [bytes?] at h
  split at h
  case isTrue htext => exact ⟨s.plain, eq_ofText_plain htext, Option.some.inj h⟩
  case isFalse => cases h

end Loose

end MarkdownVault
