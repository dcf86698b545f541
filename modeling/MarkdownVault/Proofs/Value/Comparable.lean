import MarkdownVault.Filter.Record
import MarkdownVault.Proofs.Lookup
import MarkdownVault.Proofs.Number.Range
import MarkdownVault.Proofs.Result
import MarkdownVault.Value.Coercion

/-!
# Values that can be compared

A value whose integers are not too great and whose mappings have texts as keys has a text, a number
and a truth value. Everything that a record of such values holds is of this kind.
-/

namespace MarkdownVault

namespace Value

mutual

/-- At every depth, no integer lies beyond the finite numbers, no key of a mapping is other than a
text and no collection holds itself. -/
def isComparable : Value → Bool
  | .int n => (Binary64.ofInt? n).isSome
  | .enclosing _ => false
  | .list items | .set items => allComparable items
  | .map entries => entriesComparable entries
  | _ => true

def allComparable : List Value → Bool
  | [] => true
  | v :: vs => v.isComparable && allComparable vs

def entriesComparable : List (Value × Value) → Bool
  | [] => true
  | (k, v) :: es => k.text?.isSome && v.isComparable && entriesComparable es

end

/-! ## Texts -/

mutual

/-- At every depth, no key of a mapping is other than a text and no collection holds itself. -/
def hasTextKeys : Value → Bool
  | .enclosing _ => false
  | .list items => allTextKeys items
  | .map entries => entriesTextKeys entries
  | _ => true

def allTextKeys : List Value → Bool
  | [] => true
  | v :: vs => v.hasTextKeys && allTextKeys vs

def entriesTextKeys : List (Value × Value) → Bool
  | [] => true
  | (k, v) :: es => k.text?.isSome && v.hasTextKeys && entriesTextKeys es

end

mutual

theorem hasTextKeys_of_isComparable : (v : Value) → v.isComparable → v.hasTextKeys
  | .list items, h => by
    rw [isComparable] at h
    rw [hasTextKeys]
    exact allTextKeys_of_allComparable items h
  | .map entries, h => by
    rw [isComparable] at h
    rw [hasTextKeys]
    exact entriesTextKeys_of_entriesComparable entries h
  | .null, _ | .bool _, _ | .int _, _ | .float _, _ | .text _, _ | .date _, _ | .moment _, _
  | .bytes _, _ | .set _, _ => by simp [hasTextKeys]
  | .enclosing _, h => by simp [isComparable] at h

theorem allTextKeys_of_allComparable : (vs : List Value) → allComparable vs → allTextKeys vs
  | [], _ => by rw [allTextKeys]
  | v :: vs, h => by
    rw [allComparable, Bool.and_eq_true] at h
    rw [allTextKeys, Bool.and_eq_true]
    exact ⟨hasTextKeys_of_isComparable v h.1, allTextKeys_of_allComparable vs h.2⟩

theorem entriesTextKeys_of_entriesComparable :
    (es : List (Value × Value)) → entriesComparable es → entriesTextKeys es
  | [], _ => by rw [entriesTextKeys]
  | (k, v) :: es, h => by
    rw [entriesComparable, Bool.and_eq_true, Bool.and_eq_true] at h
    rw [entriesTextKeys, Bool.and_eq_true, Bool.and_eq_true]
    exact ⟨⟨h.1.1, hasTextKeys_of_isComparable v h.1.2⟩,
      entriesTextKeys_of_entriesComparable es h.2⟩

end

theorem exists_text_of_mem {es : List (Value × Value)} (h : entriesTextKeys es) :
    ∀ e ∈ es, ∃ key, e.1 = .text key := by
  induction es with
  | nil => simp
  | cons e es ih =>
    obtain ⟨k, v⟩ := e
    simp only [entriesTextKeys, Bool.and_eq_true] at h
    refine List.forall_mem_cons.2 ⟨?_, ih h.2⟩
    cases k with
    | text key => exact ⟨key, rfl⟩
    | _ => cases h.1.1

theorem orderableKeys_of_entriesTextKeys {es : List (Value × Value)} (h : entriesTextKeys es) :
    orderableKeys es := by
  rw [orderableKeys, Bool.or_eq_true, Bool.or_eq_true]
  refine .inl (.inr (List.all_eq_true.2 fun e he => ?_))
  obtain ⟨key, hkey⟩ := exists_text_of_mem h e he
  obtain ⟨k, v⟩ := e
  cases hkey
  rfl

mutual

theorem exists_json : (v : Value) → v.hasTextKeys → ∃ s, json .canonical v = .ok s
  | .null, _ => ⟨_, by rw [json]⟩
  | .bool _, _ => ⟨_, by rw [json]⟩
  | .int _, _ => ⟨_, by rw [json]⟩
  | .float _, _ => ⟨_, by rw [json]⟩
  | .text _, _ => ⟨_, by rw [json]⟩
  | .list items, h => by
    rw [hasTextKeys] at h
    obtain ⟨parts, hparts⟩ := exists_jsonItems items h
    exact ⟨_, by rw [json, hparts]; rfl⟩
  | .map entries, h => by
    rw [hasTextKeys] at h
    have hkeys := orderableKeys_of_entriesTextKeys h
    -- sorted or not, the entries are the same ones
    have hsorted : ∀ e ∈ (jsonEntries .canonical entries).mergeSort fun a b => keyLe a.1 b.1,
        ∃ s, e.2 = .ok s :=
      fun e he => exists_ok_of_mem_jsonEntries entries h e (List.mem_mergeSort.1 he)
    obtain ⟨parts, hparts⟩ := exists_mapM hsorted
    exact ⟨"\x7b" ++ joinWith ", " parts ++ "\x7d", by
      simp only [json, show JsonStyle.canonical.sorted = true from rfl, hkeys, Bool.not_true,
        Bool.and_false, if_true, hparts]
      rfl⟩
  | .date d, _ => ⟨jsonString (shown (.date d)), by simp [json, JsonStyle.canonical]⟩
  | .moment t, _ => ⟨jsonString (shown (.moment t)), by simp [json, JsonStyle.canonical]⟩
  | .bytes data, _ => ⟨jsonString (shown (.bytes data)), by simp [json, JsonStyle.canonical]⟩
  | .set items, _ => ⟨jsonString (shown (.set items)), by simp [json, JsonStyle.canonical]⟩

theorem exists_jsonItems : (vs : List Value) → allTextKeys vs →
    ∃ parts, jsonItems .canonical vs = .ok parts
  | [], _ => ⟨_, by rw [jsonItems]⟩
  | v :: vs, h => by
    rw [allTextKeys, Bool.and_eq_true] at h
    obtain ⟨s, hs⟩ := exists_json v h.1
    obtain ⟨parts, hparts⟩ := exists_jsonItems vs h.2
    exact ⟨s :: parts, by rw [jsonItems, hs, hparts]; rfl⟩

theorem exists_ok_of_mem_jsonEntries : (es : List (Value × Value)) → entriesTextKeys es →
    ∀ e ∈ jsonEntries .canonical es, ∃ s, e.2 = .ok s
  | [], _ => by simp [jsonEntries]
  | (k, v) :: es, h => by
    rw [entriesTextKeys, Bool.and_eq_true, Bool.and_eq_true] at h
    obtain ⟨⟨hk, hv⟩, hes⟩ := h
    obtain ⟨s, hs⟩ := exists_json v hv
    rw [jsonEntries]
    refine List.forall_mem_cons.2 ⟨?_, exists_ok_of_mem_jsonEntries es hes⟩
    cases k with
    | text key => exact ⟨_, by simp only [jsonKey?, hs]; rfl⟩
    | _ => cases hk

end

mutual

theorem exists_asText_of_hasTextKeys : (v : Value) → v.hasTextKeys → ∃ s, v.asText = .ok s
  | .list items, h => by
    rw [hasTextKeys] at h
    obtain ⟨parts, hparts⟩ := exists_itemTexts items h
    exact ⟨_, by rw [asText, hparts]; rfl⟩
  | .map entries, h => by
    obtain ⟨s, hs⟩ := exists_json (.map entries) h
    exact ⟨s, by rw [asText, hs]⟩
  | .null, _ => ⟨_, by rw [asText]⟩
  | .bool _, _ => ⟨_, by rw [asText]⟩
  | .int _, _ => ⟨_, by rw [asText]⟩
  | .float _, _ => ⟨_, by rw [asText]⟩
  | .text _, _ => ⟨_, by rw [asText]⟩
  | .date _, _ => ⟨_, by rw [asText]⟩
  | .moment _, _ => ⟨_, by rw [asText]⟩
  | .bytes _, _ => ⟨_, by rw [asText] <;> simp⟩
  | .set _, _ => ⟨_, by rw [asText] <;> simp⟩

theorem exists_itemTexts : (vs : List Value) → allTextKeys vs → ∃ parts, itemTexts vs = .ok parts
  | [], _ => ⟨_, by rw [itemTexts]⟩
  | v :: vs, h => by
    rw [allTextKeys, Bool.and_eq_true] at h
    obtain ⟨s, hs⟩ := exists_asText_of_hasTextKeys v h.1
    obtain ⟨parts, hparts⟩ := exists_itemTexts vs h.2
    exact ⟨s :: parts, by rw [itemTexts, hs, hparts]; rfl⟩

end

theorem exists_asText (v : Value) (h : v.isComparable) : ∃ s, v.asText = .ok s :=
  exists_asText_of_hasTextKeys v (hasTextKeys_of_isComparable v h)

/-! ## Numbers and truth values -/

variable {v : Value}

theorem exists_asNumber (h : v.isComparable) : ∃ x, v.asNumber = .ok x := by
  cases v with
  | int n =>
    rw [isComparable] at h
    obtain ⟨x, hx⟩ := Option.isSome_iff_exists.1 h
    exact ⟨x, by rw [asNumber, hx]⟩
  | _ => exact ⟨_, rfl⟩

theorem exists_holds (h : v.isComparable) : ∃ b, v.holds = .ok b := by
  cases v with
  | int n =>
    rw [isComparable] at h
    rw [holds]
    split
    · exact ⟨false, rfl⟩
    · exact ⟨true, rfl⟩
  | _ => exact ⟨_, rfl⟩

end Value

/-! ## Records -/

/-- Every value of a record can be compared. Its times are numbers, and its other fields texts and
lists of texts. -/
structure Record.IsComparable (r : Record) : Prop where
  size : (Binary64.ofInt? r.size).isSome
  properties : ∀ p ∈ r.properties, p.2.isComparable

namespace Record.IsComparable

variable {r : Record}

theorem isComparable_textList (texts : List String) : (textList texts).isComparable := by
  rw [textList, Value.isComparable]
  induction texts with
  | nil => rfl
  | cons s texts ih => simp [Value.allComparable, Value.isComparable, ih]

theorem fileProperty (h : r.IsComparable) (name : String) : (r.fileProperty name).isComparable := by
  unfold Record.fileProperty
  split
  case h_5 => exact h.size
  case h_8 => exact isComparable_textList r.tags
  case h_9 => exact isComparable_textList r.links
  all_goals rfl

theorem lookup (h : r.IsComparable) {name : String} {v : Value}
    (hv : r.properties.lookup name = some v) : v.isComparable :=
  h.properties (name, v) (mem_of_lookup hv)

theorem noteProperty (h : r.IsComparable) (name : String) : (r.noteProperty name).isComparable := by
  rw [Record.noteProperty]
  split
  case h_1 v hv => exact h.lookup hv
  case h_2 =>
    split
    · cases hv : r.properties.lookup (dropChars 5 name) with
      | none => rfl
      | some v => exact h.lookup hv
    · rfl

end Record.IsComparable

end MarkdownVault
