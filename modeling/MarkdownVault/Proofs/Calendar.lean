import Mathlib.Data.List.Basic
import Mathlib.Data.String.Basic
import MarkdownVault.Calendar

/-!
# Texts of dates in the order of time

Dates and times of day are written with the greatest unit first and each number with the same count
of digits. So the texts of days, and those of moments without an offset, compare as the times that
they stand for. A text that ends where another goes on comes first, which is where a day stands that
is written without a time, and a second without a fraction.
-/

namespace MarkdownVault

/-! ## Digits -/

/-- Of two texts that begin with pieces of one length, the pieces decide unless they are equal. -/
theorem append_lt_append_iff {a b s t : List Char} (h : a.length = b.length) :
    a ++ s < b ++ t ↔ a < b ∨ a = b ∧ s < t := by
  induction a generalizing b with
  | nil =>
    cases List.length_eq_zero_iff.1 h.symm
    simp
  | cons x a ih =>
    cases b with
    | nil => cases h
    | cons y b =>
      rw [List.cons_append, List.cons_append, List.cons_lt_cons_iff, List.cons_lt_cons_iff,
        ih (Nat.succ.inj h), List.cons.injEq]
      tauto

theorem padded_succ {width : Nat} (hwidth : 0 < width) (n : Nat) :
    padded (width + 1) n = padded width (n / 10) ++ [(n % 10).digitChar] := by
  by_cases hn : n < 10
  · obtain ⟨w, rfl⟩ := Nat.exists_eq_succ_of_ne_zero (Nat.ne_of_gt hwidth)
    have hzero : padded (w + 1) 0 = List.replicate (w + 1) '0' := List.replicate_succ'.symm
    rw [Nat.div_eq_of_lt hn, Nat.mod_eq_of_lt hn, hzero, padded, Nat.toDigits_of_lt_base hn]
    rfl
  · rw [padded, padded, Nat.toDigits_of_base_le (by decide) (Nat.le_of_not_lt hn),
      List.length_append, List.length_singleton, Nat.add_sub_add_right, List.append_assoc]

theorem length_padded {width n : Nat} (hwidth : 0 < width) (hn : n < 10 ^ width) :
    (padded width n).length = width := by
  have hdigits := (Nat.length_toDigits_le_iff (by decide) hwidth).2 hn
  rw [padded, List.length_append, List.length_replicate, Nat.sub_add_cancel hdigits]

/-- Numbers that fit compare as their digits do. -/
theorem padded_lt_of_lt {width m n : Nat} (hwidth : 0 < width) (hn : n < 10 ^ width) (h : m < n) :
    padded width m < padded width n := by
  induction width, hwidth using Nat.le_induction generalizing m n with
  | base =>
    have hn : n < 10 := by simpa using hn
    have hm : m < 10 := h.trans hn
    rw [padded, padded, Nat.toDigits_of_lt_base hm, Nat.toDigits_of_lt_base hn]
    refine List.cons_lt_cons_iff.2 (.inl ?_)
    change m.digitChar.toNat < n.digitChar.toNat
    rw [Nat.toNat_digitChar_of_lt_ten hm, Nat.toNat_digitChar_of_lt_ten hn]
    omega
  | succ width hwidth ih =>
    have hfront : n / 10 < 10 ^ width := by omega
    rw [padded_succ hwidth, padded_succ hwidth, append_lt_append_iff]
    · by_cases hless : m / 10 < n / 10
      · exact .inl (ih hfront hless)
      · have heq : m / 10 = n / 10 := by omega
        refine .inr ⟨by rw [heq], List.cons_lt_cons_iff.2 (.inl ?_)⟩
        change (m % 10).digitChar.toNat < (n % 10).digitChar.toNat
        rw [Nat.toNat_digitChar_of_lt_ten (by omega), Nat.toNat_digitChar_of_lt_ten (by omega)]
        omega
    · rw [length_padded hwidth hfront, length_padded hwidth (by omega)]

/-- Numbers in front of the same mark decide unless they are equal. -/
theorem padded_append_lt {width m n : Nat} {s t : List Char} (mark : Char) (hwidth : 0 < width)
    (hm : m < 10 ^ width) (hn : n < 10 ^ width) (h : m < n ∨ m = n ∧ s < t) :
    padded width m ++ mark :: s < padded width n ++ mark :: t := by
  rw [append_lt_append_iff (by rw [length_padded hwidth hm, length_padded hwidth hn])]
  rcases h with h | ⟨rfl, h⟩
  · exact .inl (padded_lt_of_lt hwidth hn h)
  · exact .inr ⟨rfl, List.cons_lt_cons_iff.2 (.inr ⟨rfl, h⟩)⟩

/-! ## Days -/

namespace Date

/-- The order of days by year, month and day. -/
def Before (a b : Date) : Prop :=
  a.year < b.year ∨ a.year = b.year ∧ (a.month < b.month ∨ a.month = b.month ∧ a.day < b.day)

theorem before_trichotomy (a b : Date) : Before a b ∨ a = b ∨ Before b a := by
  rcases a with ⟨y, m, d⟩
  rcases b with ⟨y', m', d'⟩
  simp only [Before, mk.injEq]
  omega

theorem valid_iff {d : Date} : d.valid ↔ 1 ≤ d.year ∧ d.year ≤ 9999 ∧ 1 ≤ d.month ∧ d.month ≤ 12 ∧
    1 ≤ d.day ∧ d.day ≤ daysInMonth d.year d.month := by
  simp only [valid, Bool.and_eq_true, decide_eq_true_eq, and_assoc]

theorem daysInMonth_le (year month : Nat) : daysInMonth year month ≤ 31 := by
  unfold daysInMonth
  split_ifs <;> omega

/-! ### Days by their numbers -/

theorem daysBeforeMonth_succ (year month : Nat) :
    daysBeforeMonth year (month + 2) =
      daysBeforeMonth year (month + 1) + daysInMonth year (month + 1) := by
  simp only [daysBeforeMonth, Nat.add_sub_cancel, Nat.add_succ_sub_one, List.range_succ,
    List.map_append, total_append, List.map_singleton, total, Nat.add_zero]

theorem add_daysInMonth_le {year m n : Nat} (hm : 1 ≤ m) (h : m < n) :
    daysBeforeMonth year m + daysInMonth year m ≤ daysBeforeMonth year n := by
  obtain ⟨k, rfl⟩ := Nat.exists_eq_add_of_le' hm
  induction n, h using Nat.le_induction with
  | base => exact (daysBeforeMonth_succ year k).ge
  | succ n hn ih =>
    obtain ⟨j, rfl⟩ : ∃ j, n = j + 1 := ⟨n - 1, by omega⟩
    rw [daysBeforeMonth_succ year j]
    exact Nat.le_add_right_of_le ih

theorem daysBeforeMonth_thirteen (year : Nat) :
    daysBeforeMonth year 13 = if isLeap year then 366 else 365 := by
  cases hleap : isLeap year with
  | true => simp [daysBeforeMonth, daysInMonth, hleap, List.range_succ, total]
  | false => simp [daysBeforeMonth, daysInMonth, hleap, List.range_succ, total]

theorem isLeap_iff {year : Nat} :
    isLeap year ↔ year % 4 = 0 ∧ (year % 100 ≠ 0 ∨ year % 400 = 0) := by
  simp only [isLeap, Bool.and_eq_true, Bool.or_eq_true, beq_iff_eq, bne_iff_ne]

theorem daysBeforeYear_succ {year : Nat} (h : 1 ≤ year) :
    daysBeforeYear (year + 1) = daysBeforeYear year + daysBeforeMonth year 13 := by
  obtain ⟨y, rfl⟩ := Nat.exists_eq_add_of_le' h
  have hle : y / 100 ≤ y * 365 := by omega
  have hfour : (y + 1) % 100 = 0 → (y + 1) % 4 = 0 := by omega
  have hhundred : (y + 1) % 400 = 0 → (y + 1) % 100 = 0 := by omega
  simp only [daysBeforeYear, daysBeforeMonth_thirteen, isLeap_iff, Nat.add_sub_cancel, Nat.succ_div,
    Nat.dvd_iff_mod_eq_zero]
  -- What is left only asks which of the three numbers divide the year.
  generalize y / 4 = q, y / 100 = r, y / 400 = t, (y + 1) % 4 = i, (y + 1) % 100 = j,
    (y + 1) % 400 = k at *
  split_ifs <;> omega

theorem daysBeforeYear_mono {m n : Nat} (h : m ≤ n) : daysBeforeYear m ≤ daysBeforeYear n := by
  induction n, h using Nat.le_induction with
  | base => exact le_rfl
  | succ n hn ih =>
    refine ih.trans ?_
    simp only [daysBeforeYear, Nat.add_sub_cancel]
    omega

theorem number_lt_of_before {a b : Date} (ha : a.valid) (hb : b.valid) (h : Before a b) :
    a.number < b.number := by
  obtain ⟨hyear, -, hmonth, hmonth', hday, hday'⟩ := valid_iff.1 ha
  obtain ⟨-, -, -, -, hday₁, -⟩ := valid_iff.1 hb
  simp only [number]
  rcases h with h | ⟨hy, h | ⟨hm, h⟩⟩
  · have hrest : daysBeforeMonth a.year a.month + daysInMonth a.year a.month ≤
        daysBeforeMonth a.year 13 := add_daysInMonth_le hmonth (by omega)
    have hnext := daysBeforeYear_succ hyear
    have hyears : daysBeforeYear (a.year + 1) ≤ daysBeforeYear b.year := daysBeforeYear_mono h
    omega
  · have hrest : daysBeforeMonth a.year a.month + daysInMonth a.year a.month ≤
        daysBeforeMonth a.year b.month := add_daysInMonth_le hmonth h
    rw [← hy]
    omega
  · rw [← hy, ← hm]
    omega

/-! ### Days by their texts -/

theorem toList_text (d : Date) : d.text.toList =
    padded 4 d.year ++ ('-' :: (padded 2 d.month ++ ('-' :: padded 2 d.day))) := by
  simp [text]

theorem fits_of_valid {d : Date} (h : d.valid) :
    d.year < 10 ^ 4 ∧ d.month < 10 ^ 2 ∧ d.day < 10 ^ 2 := by
  have hdays := daysInMonth_le d.year d.month
  have hvalid := valid_iff.1 h
  omega

theorem length_text {d : Date} (h : d.valid) : d.text.toList.length = 10 := by
  obtain ⟨hyear, hmonth, hday⟩ := fits_of_valid h
  simp only [toList_text, List.length_append, List.length_cons, length_padded (by decide) hyear,
    length_padded (by decide) hmonth, length_padded (by decide) hday]

theorem text_lt_of_before {a b : Date} (ha : a.valid) (hb : b.valid) (h : Before a b) :
    a.text.toList < b.text.toList := by
  obtain ⟨hyear, hmonth, hday⟩ := fits_of_valid ha
  obtain ⟨hyear', hmonth', hday'⟩ := fits_of_valid hb
  rw [toList_text, toList_text]
  refine padded_append_lt '-' (by decide) hyear hyear' (h.imp_right (.imp_right fun h => ?_))
  rcases h with h | ⟨hm, h⟩
  · exact padded_append_lt '-' (by decide) hmonth hmonth' (.inl h)
  · exact padded_append_lt '-' (by decide) hmonth hmonth'
      (.inr ⟨hm, padded_lt_of_lt (by decide) hday' h⟩)

/-- Days compare as their texts do. -/
theorem text_lt_iff {a b : Date} (ha : a.valid) (hb : b.valid) :
    a.text < b.text ↔ a.number < b.number := by
  rw [String.lt_iff_toList_lt]
  rcases before_trichotomy a b with h | rfl | h
  · exact iff_of_true (text_lt_of_before ha hb h) (number_lt_of_before ha hb h)
  · exact iff_of_false (lt_irrefl _) (lt_irrefl _)
  · exact iff_of_false (lt_asymm (text_lt_of_before hb ha h))
      (lt_asymm (number_lt_of_before hb ha h))

theorem eq_of_number_eq {a b : Date} (ha : a.valid) (hb : b.valid) (h : a.number = b.number) :
    a = b := by
  rcases before_trichotomy a b with hbefore | heq | hbefore
  · exact absurd h (Nat.ne_of_lt (number_lt_of_before ha hb hbefore))
  · exact heq
  · exact absurd h.symm (Nat.ne_of_lt (number_lt_of_before hb ha hbefore))

end Date

/-! ## Times of day -/

namespace Moment

theorem valid_iff {t : Moment} : t.valid ↔ t.date.valid ∧ t.hour < 24 ∧ t.minute < 60 ∧
    t.second < 60 ∧ t.micro < 1000000 ∧ t.offset.all fun o => o.natAbs < 86400 := by
  simp only [valid, Bool.and_eq_true, decide_eq_true_eq, and_assoc]

theorem timeText_lt {t u : Moment} (ht : t.valid) (hu : u.valid)
    (h : t.microOfDay < u.microOfDay) : t.timeText < u.timeText := by
  obtain ⟨-, hh, hm, hs, hf, -⟩ := valid_iff.1 ht
  obtain ⟨-, hh', hm', hs', hf', -⟩ := valid_iff.1 hu
  have hunits : t.hour < u.hour ∨ t.hour = u.hour ∧ (t.minute < u.minute ∨ t.minute = u.minute ∧
      (t.second < u.second ∨ t.second = u.second ∧ t.micro < u.micro)) := by
    simp only [microOfDay] at h
    omega
  have hunit {m n : Nat} {s s' : List Char} (hm : m < 60) (hn : n < 60)
      (h : m < n ∨ m = n ∧ s < s') : padded 2 m ++ ':' :: s < padded 2 n ++ ':' :: s' :=
    padded_append_lt ':' (by decide) (by omega) (by omega) h
  simp only [timeText, List.append_assoc, List.singleton_append]
  refine hunit (by omega) (by omega) (hunits.imp_right (.imp_right fun h => ?_))
  refine hunit hm hm' (h.imp_right (.imp_right fun h => ?_))
  change padded 2 t.second ++ _ < padded 2 u.second ++ _
  rw [append_lt_append_iff
    (by rw [length_padded (by decide) (by omega), length_padded (by decide) (by omega)])]
  rcases h with h | ⟨hsecond, h⟩
  · exact .inl (padded_lt_of_lt (by decide) (by omega) h)
  · refine .inr ⟨by rw [hsecond], ?_⟩
    -- A fraction is only written if there is one, so the greater one is there.
    rw [if_neg (Nat.ne_zero_of_lt h)]
    split
    · exact List.nil_lt_cons _ _
    · exact List.cons_lt_cons_iff.2 (.inr ⟨rfl, padded_lt_of_lt (by decide) (by omega) h⟩)

end Moment

end MarkdownVault
