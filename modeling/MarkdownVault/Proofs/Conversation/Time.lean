import MarkdownVault.Conversation.Search
import MarkdownVault.Proofs.Calendar
import MarkdownVault.Proofs.Note.Times

/-!
# Times of conversations

Times are compared as texts. Between days and moments without an offset this is the order in time,
a day being its own first moment, and the first ten characters of such a text are its day.
-/

namespace MarkdownVault

/-! ## Labels are not empty -/

theorem Decimal.text_ne_nil (x : Decimal) : x.text ≠ [] := by
  have hpositional (digits : List Char) (point : Int) : positional digits point ≠ [] := by
    unfold positional
    split <;> simp
  have hscientific (digits : List Char) (e : Int) : scientific digits e ≠ [] := by
    simp [scientific]
  unfold text
  split
  · simp
  · dsimp only
    split
    · exact hpositional _ _
    · exact hscientific _ _

namespace Value

theorem literal_ne_empty (v : Value) : v.literal ≠ "" := by
  have hclosed {s close : String} (h : close ≠ "") : s ++ close ≠ "" := fun heq =>
    h (String.append_eq_empty_iff.1 heq).2
  have hlist {cs : List Char} (h : cs ≠ []) : String.ofList cs ≠ "" := by simpa using h
  cases v with
  | null => decide
  | bool b => cases b <;> decide
  | int n =>
    have hdigits : natText n.natAbs ≠ "" := hlist Nat.toDigits_ne_nil
    simp only [literal, literalIn, intText]
    split
    · exact hclosed hdigits
    · exact hdigits
  | float x =>
    cases x with
    | nan => decide
    | infinite a => cases a <;> decide
    | finite a m e =>
      apply hlist
      cases a <;> by_cases hm : m = 0 <;> simp [hm, Decimal.text_ne_nil]
  | text s => exact hlist (List.cons_ne_nil _ _)
  | bytes data => exact hlist (List.cons_ne_nil _ _)
  | date d => exact hclosed (by decide)
  | moment t => exact hclosed (by decide)
  | list items =>
    rw [literal, literalIn]
    exact hclosed (by decide)
  | set items =>
    rw [literal, literalIn]
    split
    · decide
    · exact hclosed (by decide)
  | map entries =>
    rw [literal, literalIn]
    exact hclosed (by decide)
  | enclosing levels => simp [literal, literalIn]

theorem label?_ne_empty (v : Value) : v.label? ≠ some "" := by
  intro h
  cases v with
  | null => cases h
  | text s =>
    simp only [label?] at h
    split at h
    · cases h
    · rename_i hs
      cases h
      exact hs rfl
  | date d =>
    have hlist := congrArg String.toList (Option.some.inj h)
    simp [Date.text] at hlist
  | moment t =>
    have hlist := congrArg String.toList (Option.some.inj h)
    simp [Moment.text, Moment.textWith] at hlist
  | bool _ | int _ | float _ | bytes _ | list _ | set _ | map _ | enclosing _ =>
    exact literal_ne_empty _ (Option.some.inj h)

/-! ## Local times -/

/-- The moment that a day or a moment without an offset stands for; a day begins at midnight. -/
def localMoment? : Value → Option Moment
  | .date d => some ⟨d, 0, 0, 0, 0, none⟩
  | .moment t => if t.offset = none then some t else none
  | _ => none

/-- What follows the day in the text of a moment. -/
def clockText : Value → List Char
  | .moment t => 'T' :: t.timeText
  | _ => []

variable {v w : Value} {t u : Moment}

theorem offset_of_localMoment? (h : v.localMoment? = some t) : t.offset = none := by
  cases v with
  | date d => cases h; rfl
  | moment m =>
    obtain ⟨hoffset, ⟨⟩⟩ := Option.ite_none_right_eq_some.1 h
    exact hoffset
  | _ => cases h

theorem valid_of_localMoment? (hv : v.OnCalendar) (h : v.localMoment? = some t) : t.valid := by
  cases v with
  | date d =>
    cases h
    exact Moment.valid_iff.2 ⟨hv, by simp⟩
  | moment m =>
    obtain ⟨-, ⟨⟩⟩ := Option.ite_none_right_eq_some.1 h
    exact hv
  | _ => cases h

theorem label?_of_localMoment? (h : v.localMoment? = some t) :
    v.label? = some (String.ofList (t.date.text.toList ++ v.clockText)) := by
  cases v with
  | date d =>
    cases h
    simp [label?, clockText]
  | moment m =>
    obtain ⟨hoffset, ⟨⟩⟩ := Option.ite_none_right_eq_some.1 h
    simp [label?, clockText, Moment.text, Moment.textWith, hoffset]
  | _ => cases h

/-- On one day the later of two times has the greater text. -/
theorem clockText_lt (hv : v.OnCalendar) (hw : w.OnCalendar) (ht : v.localMoment? = some t)
    (hu : w.localMoment? = some u) (h : t.microOfDay < u.microOfDay) :
    v.clockText < w.clockText := by
  cases w with
  | date d =>
    cases hu
    simp [Moment.microOfDay] at h
  | moment m =>
    obtain ⟨-, ⟨⟩⟩ := Option.ite_none_right_eq_some.1 hu
    cases v with
    | date d => exact List.nil_lt_cons _ _
    | moment l =>
      obtain ⟨-, ⟨⟩⟩ := Option.ite_none_right_eq_some.1 ht
      exact List.cons_lt_cons_iff.2 (.inr ⟨rfl, Moment.timeText_lt hv hw h⟩)
    | _ => cases ht
  | _ => cases hu

end Value

namespace Moment

theorem microOfDay_lt {t : Moment} (h : t.valid) : t.microOfDay < microsPerDay := by
  obtain ⟨-, hh, hm, hs, hf, -⟩ := valid_iff.1 h
  simp only [microOfDay, microsPerDay]
  omega

/-- Moments without an offset are in the order of their days, then of their times of day. -/
theorem epochMicros_lt_iff {t u : Moment} (ht : t.valid) (hu : u.valid) (hlt : t.offset = none)
    (hlu : u.offset = none) : t.epochMicros < u.epochMicros ↔ t.date.number < u.date.number ∨
      t.date.number = u.date.number ∧ t.microOfDay < u.microOfDay := by
  have htime := microOfDay_lt ht
  have htime' := microOfDay_lt hu
  rw [epochMicros, epochMicros, hlt, hlu, Date.epochDays, Date.epochDays, Option.getD_none]
  unfold microsPerDay at *
  simp only [Int.ofNat_eq_natCast]
  omega

end Moment

namespace Value

variable {v w : Value} {t u : Moment} {a b : String}

/-- The later of two local times has the greater text. -/
theorem label_lt (hv : v.OnCalendar) (hw : w.OnCalendar) (ht : v.localMoment? = some t)
    (hu : w.localMoment? = some u) (ha : v.label? = some a) (hb : w.label? = some b)
    (h : t.epochMicros < u.epochMicros) : a < b := by
  have htvalid := valid_of_localMoment? hv ht
  have huvalid := valid_of_localMoment? hw hu
  have hdate := (Moment.valid_iff.1 htvalid).1
  have hdate' := (Moment.valid_iff.1 huvalid).1
  obtain rfl := Option.some.inj ((label?_of_localMoment? ht).symm.trans ha)
  obtain rfl := Option.some.inj ((label?_of_localMoment? hu).symm.trans hb)
  rw [String.lt_iff_toList_lt, String.toList_ofList, String.toList_ofList,
    append_lt_append_iff (by rw [Date.length_text hdate, Date.length_text hdate'])]
  rcases (Moment.epochMicros_lt_iff htvalid huvalid (offset_of_localMoment? ht)
    (offset_of_localMoment? hu)).1 h with hday | ⟨hday, htime⟩
  · exact .inl (String.lt_iff_toList_lt.1 ((Date.text_lt_iff hdate hdate').2 hday))
  · exact .inr ⟨by rw [Date.eq_of_number_eq hdate hdate' hday], clockText_lt hv hw ht hu htime⟩

end Value

namespace Conversation.Criteria

/-- A bound that is a day is compared with the day of a local time. -/
theorem cut_of_localMoment? {d : Date} {v : Value} {t : Moment} {time : String} (hd : d.valid)
    (hv : v.OnCalendar) (ht : v.localMoment? = some t) (htime : v.label? = some time) :
    cut d.text time = t.date.text := by
  have hdate := (Moment.valid_iff.1 (Value.valid_of_localMoment? hv ht)).1
  obtain rfl := Option.some.inj ((Value.label?_of_localMoment? ht).symm.trans htime)
  rw [cut, takeChars, mapChars, ← String.length_toList, Date.length_text hd,
    String.toList_ofList, List.take_left' (Date.length_text hdate), String.ofList_toList]

end Conversation.Criteria

end MarkdownVault
