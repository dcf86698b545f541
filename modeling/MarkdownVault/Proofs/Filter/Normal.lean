import MarkdownVault.Proofs.Filter.Numeral
import MarkdownVault.Proofs.Filter.Verdict

/-!
# The normal form of filters

A filter can be written in many ways: scalars stand for their texts, lists for what asks for all of
their items, a single value for a list of it, and what is blank for nothing. Writing the condition
that was read gives one of them, the normal form. It is read as the same condition, and it is the
filter itself exactly if that was in normal form already.
-/

namespace MarkdownVault

/-! ## Texts of scalars -/

theorem isBlankText_eq_false {s : String} {c : Char} (hmem : c ∈ s.toList)
    (hc : Text.isBlank c = false) : isBlankText s = false := by
  rw [isBlankText, List.all_eq_false]
  exact ⟨c, hmem, by simp [hc]⟩

theorem Text.isBlank_of_isDigit {c : Char} (h : c.isDigit) : isBlank c = false := by
  have hrange : 48 ≤ c.toNat ∧ c.toNat ≤ 57 := by
    simpa [Char.isDigit, UInt32.le_iff_toNat_le] using h
  simp only [isBlank, Bool.or_eq_false_iff, Bool.and_eq_false_iff, decide_eq_false_iff_not,
    beq_eq_false_iff_ne]
  omega

theorem Value.isBlankText_intText (n : Int) : isBlankText (intText n) = false := by
  obtain ⟨c, hc⟩ := List.exists_mem_of_ne_nil _ (Nat.toDigits_ne_nil (b := 10) (n := n.natAbs))
  have hmem : c ∈ (intText n).toList := by
    rw [toList_intText]
    exact List.mem_append_right _ hc
  exact isBlankText_eq_false hmem (Text.isBlank_of_isDigit (isDigit_of_mem_digits hc))

/-- A decimal shows a point or an exponent. -/
theorem Decimal.exists_mark (x : Decimal) : '.' ∈ x.text ∨ 'e' ∈ x.text := by
  rw [text]
  by_cases hzero : x.digits = 0
  · exact .inl (by simp [hzero])
  rw [if_neg hzero]
  simp only
  split
  · refine .inl ?_
    unfold positional
    split <;> simp
  · exact .inr (by simp [scientific])

theorem Value.isBlankText_numberText (x : Binary64) : isBlankText (numberText x) = false := by
  rw [numberText]
  split
  · exact isBlankText_intText _
  cases x with
  | nan => decide
  | infinite a => cases a <;> decide
  | finite a m e =>
    have hmark : ∃ c ∈ (if m = 0 then "0.0".toList else (Decimal.shortest m e).text),
        Text.isBlank c = false := by
      split
      · exact ⟨'.', by decide, by decide⟩
      · rcases Decimal.exists_mark (Decimal.shortest m e) with h | h
        · exact ⟨'.', h, by decide⟩
        · exact ⟨'e', h, by decide⟩
    obtain ⟨c, hmem, hc⟩ := hmark
    refine isBlankText_eq_false ?_ hc
    rw [Binary64.textWith, String.toList_ofList]
    cases a
    · exact hmem
    · exact List.mem_cons_of_mem _ hmem

namespace Filter

open Condition (ofValue? ofValues itemsUnder? toValue toValues)

/-! ## Conditions that can be written -/

/-- None of the texts in some conditions is blank. -/
def NoBlanks (cs : List Condition) : Prop := ∀ text ∈ literalsAmong cs, isBlankText text = false

theorem noBlanks_nil : NoBlanks [] := fun _ h => nomatch h

theorem noBlanks_cons_iff {c : Condition} {cs : List Condition} :
    NoBlanks (c :: cs) ↔ NoBlanks [c] ∧ NoBlanks cs := by
  simp [NoBlanks, literalsAmong, or_imp, forall_and]

theorem noBlanks_append {cs ds : List Condition} (hcs : NoBlanks cs) (hds : NoBlanks ds) :
    NoBlanks (cs ++ ds) := by
  induction cs with
  | nil => exact hds
  | cons c cs ih =>
    obtain ⟨hc, hcs⟩ := noBlanks_cons_iff.1 hcs
    exact noBlanks_cons_iff.2 ⟨hc, ih hcs⟩

theorem noBlanks_literal {text : String} : NoBlanks [.literal text] ↔ isBlankText text = false := by
  simp [NoBlanks, literalsAmong, Condition.literals]

theorem noBlanks_all {items : List Condition} : NoBlanks [.all items] ↔ NoBlanks items := by
  simp [NoBlanks, literalsAmong, Condition.literals]

theorem noBlanks_any {items : List Condition} : NoBlanks [.any items] ↔ NoBlanks items := by
  simp [NoBlanks, literalsAmong, Condition.literals]

theorem noBlanks_none {items : List Condition} : NoBlanks [.none items] ↔ NoBlanks items := by
  simp [NoBlanks, literalsAmong, Condition.literals]

theorem noBlanks_itemsIn {v : Value} : NoBlanks (itemsIn v) ↔ NoBlanks (ofValue? v).toList := by
  cases v with
  | list items => rw [itemsIn, ofValue?, Option.toList_some, noBlanks_all]
  | _ => rfl

mutual

/-- What is read from a value has no blank texts. -/
theorem noBlanks_ofValue? : (v : Value) → NoBlanks (ofValue? v).toList
  | .null => noBlanks_nil
  | .text s => by
    rw [ofValue?]
    split
    case isTrue => exact noBlanks_nil
    case isFalse hblank => exact noBlanks_literal.2 (by simpa using hblank)
  | .bool b => noBlanks_literal.2 (by cases b <;> decide)
  | .int n => noBlanks_literal.2 (Value.isBlankText_intText n)
  | .float x => noBlanks_literal.2 (Value.isBlankText_numberText x)
  | .list items => noBlanks_all.2 (noBlanks_ofValues items)
  | .map entries => by
    have hitems := noBlanks_itemsUnder? entries
    rw [ofValue?]
    split
    case h_1 => exact noBlanks_all.2 (hitems _ _ ‹_›)
    split
    case h_1 => exact noBlanks_any.2 (hitems _ _ ‹_›)
    split
    case h_1 => exact noBlanks_none.2 (hitems _ _ ‹_›)
    case h_2 => exact noBlanks_all.2 noBlanks_nil
  | .date _ | .moment _ | .bytes _ | .set _ | .enclosing _ => noBlanks_all.2 noBlanks_nil

theorem noBlanks_ofValues : (vs : List Value) → NoBlanks (ofValues vs)
  | [] => noBlanks_nil
  | v :: vs => noBlanks_append (noBlanks_ofValue? v) (noBlanks_ofValues vs)

theorem noBlanks_itemsUnder? : (entries : List (Value × Value)) → ∀ key items,
    itemsUnder? key entries = some items → NoBlanks items
  | [], key, items, h => by cases h
  | (k, v) :: entries, key, items, h => by
    rw [itemsUnder?_cons] at h
    split at h
    · cases h
      exact noBlanks_itemsIn.2 (noBlanks_ofValue? v)
    · exact noBlanks_itemsUnder? entries key items h

end

mutual

/-- A condition without blank texts is read back. -/
theorem ofValue?_toValue : (c : Condition) → NoBlanks [c] → ofValue? (toValue c) = some c
  | .literal text, h => by rw [toValue, ofValue?, noBlanks_literal.1 h, if_neg Bool.false_ne_true]
  | .all items, h => by
    rw [toValue, ofValue?, itemsUnder?_cons, itemsIn, ofValues_toValues items (noBlanks_all.1 h)]
    rfl
  | .any items, h => by
    rw [toValue, ofValue?, itemsUnder?_cons, itemsUnder?_cons, itemsIn,
      ofValues_toValues items (noBlanks_any.1 h)]
    rfl
  | .none items, h => by
    rw [toValue, ofValue?, itemsUnder?_cons, itemsUnder?_cons, itemsUnder?_cons, itemsIn,
      ofValues_toValues items (noBlanks_none.1 h)]
    rfl

theorem ofValues_toValues : (cs : List Condition) → NoBlanks cs → ofValues (toValues cs) = cs
  | [], _ => rfl
  | c :: cs, h => by
    obtain ⟨hc, hcs⟩ := noBlanks_cons_iff.1 h
    rw [toValues, ofValues, ofValue?_toValue c hc, ofValues_toValues cs hcs]
    rfl

end

/-! ## Normal filters -/

/-- A filter of texts that are not blank and of mappings with one key and a list of such filters. -/
inductive IsNormal : Value → Prop where
  | text {s : String} (h : isBlankText s = false) : IsNormal (.text s)
  | group {key : String} {items : List Value} (hkey : key ∈ ["and", "or", "not"])
      (h : ∀ v ∈ items, IsNormal v) : IsNormal (.map [(.text key, .list items)])

/-- The form in which a filter is written after it was read; no filter is null. -/
def normalForm (filter : Value) : Value := ((ofValue? filter).map toValue).getD .null

mutual

theorem isNormal_toValue : (c : Condition) → NoBlanks [c] → IsNormal (toValue c)
  | .literal _, h => .text (noBlanks_literal.1 h)
  | .all items, h => .group (by simp) (isNormal_toValues items (noBlanks_all.1 h))
  | .any items, h => .group (by simp) (isNormal_toValues items (noBlanks_any.1 h))
  | .none items, h => .group (by simp) (isNormal_toValues items (noBlanks_none.1 h))

theorem isNormal_toValues : (cs : List Condition) → NoBlanks cs → ∀ v ∈ toValues cs, IsNormal v
  | [], _, _, h => nomatch h
  | c :: cs, hblank, v, h => by
    obtain ⟨hc, hcs⟩ := noBlanks_cons_iff.1 hblank
    rcases List.mem_cons.1 h with rfl | h
    · exact isNormal_toValue c hc
    · exact isNormal_toValues cs hcs v h

end

theorem toValues_ofValues {vs : List Value}
    (h : ∀ v ∈ vs, (ofValue? v).map toValue = some v) : toValues (ofValues vs) = vs := by
  induction vs with
  | nil => rfl
  | cons v vs ih =>
    obtain ⟨hv, hvs⟩ := List.forall_mem_cons.1 h
    obtain ⟨c, hc, hwritten⟩ := Option.map_eq_some_iff.1 hv
    rw [ofValues, hc, Option.toList_some, List.singleton_append, toValues, hwritten, ih hvs]

/-- A normal filter is written as it was read. -/
theorem IsNormal.toValue_ofValue? {v : Value} (h : IsNormal v) :
    (ofValue? v).map toValue = some v := by
  induction h with
  | text h => rw [ofValue?, h, if_neg Bool.false_ne_true, Option.map_some, toValue]
  | group hkey _ ih =>
    have hitems := toValues_ofValues ih
    simp only [List.mem_cons, List.not_mem_nil, or_false] at hkey
    rcases hkey with rfl | rfl | rfl <;> simp [ofValue?, itemsUnder?, toValue, hitems]

/-- What is read from a filter is read from its normal form too. -/
theorem ofValue?_normalForm (filter : Value) : ofValue? (normalForm filter) = ofValue? filter := by
  have hblank := noBlanks_ofValue? filter
  rw [normalForm]
  cases hread : ofValue? filter with
  | none => rw [Option.map_none, Option.getD_none, ofValue?]
  | some c =>
    rw [hread, Option.toList_some] at hblank
    exact ofValue?_toValue c hblank

theorem normalForm_eq_self_iff (filter : Value) :
    normalForm filter = filter ↔ filter = .null ∨ IsNormal filter := by
  constructor
  · intro hself
    have hblank := noBlanks_ofValue? filter
    rw [normalForm] at hself
    cases hread : ofValue? filter with
    | none => exact .inl (by rw [← hself, hread]; rfl)
    | some c =>
      rw [hread, Option.toList_some] at hblank
      rw [hread] at hself
      exact .inr (hself ▸ isNormal_toValue c hblank)
  · rintro (rfl | h)
    · rfl
    · rw [normalForm, h.toValue_ofValue?, Option.getD_some]

/-- The normal form of a filter is read as the same condition and holds for the same records. The
filters that are written as they were read are those of texts that are not blank and of mappings
with one key to lists of such filters, and null. -/
theorem normalForm_means :
    (∀ filter, ofValue? (normalForm filter) = ofValue? filter) ∧
    (∀ r filter, evalValue r (normalForm filter) = evalValue r filter) ∧
    ∀ filter, normalForm filter = filter ↔ filter = .null ∨ IsNormal filter := by
  refine ⟨ofValue?_normalForm, fun r filter => ?_, normalForm_eq_self_iff⟩
  rw [evalValue, ofValue?_normalForm, evalValue]

/-- A blank text goes, a truth value becomes its text, and of two keys one is kept. -/
example : normalForm (.list [.text " ", .bool true,
      .map [(.text "or", .list [.text "b"]), (.text "and", .text "a")]]) =
    .map [(.text "and", .list [.text "true", .map [(.text "and", .list [.text "a"])]])] := by
  cbv

end Filter

end MarkdownVault
