import MarkdownVault.Yaml.Printer

/-!
# Line ends of documents

A document that is written has no carriage return: a text that holds one is written between double
quotes, where it is escaped. Reading a file with plain line ends therefore gives the document back.
-/

namespace MarkdownVault

/-! ## Digits -/

theorem return_notMem_toDigits {base : Nat} (hbase : 1 < base) (n : Nat) :
    '\r' ∉ Nat.toDigits base n := by
  have hdigit (n : Nat) : n.digitChar ≠ '\r' := Nat.digitChar_ne '\r' rfl
  induction n using Nat.strongRecOn with
  | ind n ih =>
    rw [Nat.toDigits_eq_if hbase]
    split
    case isTrue => simp [(hdigit n).symm]
    case isFalse hn =>
      have hless : n / base < n := Nat.div_lt_self (by omega) hbase
      simp [ih _ hless, (hdigit (n % base)).symm]

theorem return_notMem_padded (width n : Nat) : '\r' ∉ padded width n := by
  simpa [padded] using return_notMem_toDigits (by decide) n

theorem Date.return_notMem_text (d : Date) : '\r' ∉ d.text.toList := by
  simp [text, return_notMem_padded]

theorem Moment.return_notMem_textWith (t : Moment) : '\r' ∉ (t.textWith ' ').toList := by
  have htime : '\r' ∉ t.timeText := by
    rw [timeText]
    split <;> simp [return_notMem_padded]
  have hoffset : '\r' ∉ (t.offset.map offsetText).getD [] := by
    cases t.offset with
    | none => simp
    | some offset =>
      rw [Option.map_some, Option.getD_some, offsetText]
      split <;> simp [return_notMem_padded]
  simp [textWith, Date.return_notMem_text, htime, hoffset]

theorem Value.return_notMem_intText (n : Int) : '\r' ∉ (intText n).toList := by
  have hdigits := return_notMem_toDigits (show 1 < 10 by decide) n.natAbs
  rw [intText]
  split <;> simpa [natText] using hdigits

namespace Decimal

variable {digits : List Char}

theorem return_notMem_positional (h : '\r' ∉ digits) (point : Int) :
    '\r' ∉ positional digits point := by
  have htake : '\r' ∉ digits.take point.toNat := fun hmem => h (List.mem_of_mem_take hmem)
  have hdrop : '\r' ∉ digits.drop point.toNat := fun hmem => h (List.mem_of_mem_drop hmem)
  simp only [positional]
  split
  · simp [h]
  · split <;> simp [htake, hdrop]

theorem return_notMem_scientific (h : '\r' ∉ digits) (e : Int) : '\r' ∉ scientific digits e := by
  have hsize := return_notMem_toDigits (show 1 < 10 by decide) e.natAbs
  simp only [scientific, List.append_assoc, List.mem_append, not_or]
  refine ⟨?_, ?_, ?_⟩
  · rcases digits with _ | ⟨d, _ | ⟨c, ds⟩⟩
    · exact h
    · exact h
    · simpa using h
  · split <;> decide
  · split <;> simp [hsize]

theorem return_notMem_text (x : Decimal) : '\r' ∉ x.text := by
  have hall := return_notMem_toDigits (show 1 < 10 by decide) x.digits
  have hdigits : '\r' ∉ dropEndZeros (Nat.toDigits 10 x.digits) := by
    rw [dropEndZeros]
    split
    · decide
    · intro hmem
      have hmem := List.mem_reverse.1 hmem
      exact hall (List.mem_reverse.1 ((List.dropWhile_sublist _).subset hmem))
  rw [text]
  split
  · decide
  · simp only
    split
    · exact return_notMem_positional hdigits _
    · exact return_notMem_scientific hdigits _

end Decimal

theorem Binary64.return_notMem_text (x : Binary64) : '\r' ∉ x.text.toList := by
  cases x with
  | nan => decide
  | infinite a => cases a <;> decide
  | finite a m e =>
    have hdigits : '\r' ∉ if m = 0 then "0.0".toList else (Decimal.shortest m e).text := by
      split
      · decide
      · exact Decimal.return_notMem_text _
    simp only [text, textWith, String.toList_ofList]
    split
    · simpa using hdigits
    · exact hdigits

namespace Yaml

theorem toUpper_ne_return {c : Char} (h : c ≠ '\r') : c.toUpper ≠ '\r' := by
  by_cases hlower : 'a'.val ≤ c.val ∧ c.val ≤ 'z'.val
  · intro heq
    have hval := congrArg (fun c => c.val.toNat) ((dif_pos hlower).symm.trans heq)
    obtain ⟨hleft, hright⟩ := hlower
    simp only [UInt32.le_iff_toNat_le] at hleft hright
    simp at hval hleft hright
    omega
  · have hsame : c.toUpper = c := dif_neg hlower
    rwa [hsame]

theorem return_notMem_upperHex (width n : Nat) : '\r' ∉ upperHex width n := by
  rw [upperHex, List.mem_map]
  rintro ⟨c, hc, hupper⟩
  refine toUpper_ne_return ?_ hupper
  rintro rfl
  revert hc
  simpa [Text.hex] using return_notMem_toDigits (by decide) n

theorem return_notMem_doubleQuotedChar (c : Char) : '\r' ∉ doubleQuotedChar c := by
  fun_cases doubleQuotedChar c
  case case15 hreturn _ _ _ _ _ _ => simpa using fun heq => hreturn heq.symm
  all_goals simp [return_notMem_upperHex]

theorem return_notMem_singleQuoted (indent : Nat) {cs : List Char} (h : '\r' ∉ cs) :
    '\r' ∉ singleQuoted indent cs := by
  fun_induction singleQuoted indent cs with
  | case1 => exact h
  | case2 c cs hbreak ih =>
    have hcs : '\r' ∉ cs := fun hmem => h (List.mem_cons_of_mem c hmem)
    have hbreaks : '\r' ∉ writtenBreaks indent (c :: cs.takeWhile isTextBreak) := by
      have htake : '\r' ∉ cs.takeWhile isTextBreak := fun hmem =>
        hcs ((List.takeWhile_sublist _).subset hmem)
      have hc : '\r' ≠ c := fun heq => h (heq ▸ List.mem_cons_self)
      rw [writtenBreaks]
      split <;> simp [htake, hc]
    have hrest := ih fun hmem => hcs ((List.dropWhile_sublist _).subset hmem)
    simp [hbreaks, hrest]
  | case3 cs _ ih =>
    have hrest := ih fun hmem => h (List.mem_cons_of_mem _ hmem)
    simp [hrest]
  | case4 c cs _ _ ih =>
    have hc : '\r' ≠ c := fun heq => h (heq ▸ List.mem_cons_self)
    have hrest := ih fun hmem => h (List.mem_cons_of_mem c hmem)
    simp [hc, hrest]

theorem isShowable_return : isShowable '\r' = false := by decide

theorem return_notMem_of_showable {cs : List Char} (h : cs.all isShowable) : '\r' ∉ cs := by
  intro hmem
  have hshowable := List.all_eq_true.1 h _ hmem
  rw [isShowable_return] at hshowable
  cases hshowable

theorem return_notMem_writtenText (indent : Nat) (s : String) : '\r' ∉ writtenText indent s := by
  simp only [writtenText]
  split
  case isTrue hplain =>
    simp only [fitsPlain, Bool.and_eq_true] at hplain
    obtain ⟨⟨⟨⟨⟨⟨⟨⟨-, hshowable⟩, -⟩, -⟩, -⟩, -⟩, -⟩, -⟩, -⟩ := hplain
    exact return_notMem_of_showable hshowable
  case isFalse =>
    split
    case isTrue hsingle =>
      simp only [fitsSingle, Bool.and_eq_true] at hsingle
      simpa using return_notMem_singleQuoted indent (return_notMem_of_showable hsingle.1.1)
    case isFalse =>
      simp only [List.mem_append, List.mem_flatMap, not_or, not_exists, not_and]
      refine ⟨⟨by decide, fun c _ => return_notMem_doubleQuotedChar c⟩, by decide⟩

theorem return_notMem_writtenNumber (x : Binary64) : '\r' ∉ writtenNumber x := by
  have htext := x.return_notMem_text
  fun_cases writtenNumber x
  case case1 => decide
  case case2 negative => cases negative <;> decide
  case case3 => exact htext
  case case4 cs _ =>
    have htake : '\r' ∉ cs.takeWhile (· != 'e') := fun hmem =>
      htext ((List.takeWhile_sublist _).subset hmem)
    have hdrop : '\r' ∉ cs.dropWhile (· != 'e') := fun hmem =>
      htext ((List.dropWhile_sublist _).subset hmem)
    simp [htake, hdrop]

theorem base64Char_ne_return (n : Nat) : base64Char n ≠ '\r' := by
  have hupper : ∀ n < 26, Char.ofNat (0x41 + n) ≠ '\r' := by decide
  have hlower : ∀ n < 26, Char.ofNat (0x61 + n) ≠ '\r' := by decide
  have hdigit : ∀ n < 10, Char.ofNat (0x30 + n) ≠ '\r' := by decide
  fun_cases base64Char n
  case case1 hn => exact hupper n hn
  case case2 hn => exact hlower (n - 26) (by omega)
  case case3 hn => exact hdigit (n - 52) (by omega)
  all_goals decide

theorem return_notMem_base64 (data : List UInt8) : '\r' ∉ base64 data := by
  fun_induction base64 data <;> simp_all [(base64Char_ne_return _).symm]

theorem return_notMem_byteLines (indent : Nat) (data : List UInt8) :
    '\r' ∉ byteLines indent data := by
  fun_induction byteLines indent data <;> simp_all [newLine, return_notMem_base64]

theorem return_notMem_writtenBytes (indent : Nat) (data : List UInt8) :
    '\r' ∉ writtenBytes indent data := by
  rw [writtenBytes]
  split
  · decide
  · have hmark : '\r' ∉ "!!binary |".toList := by decide
    rw [List.mem_append, not_or]
    exact ⟨hmark, return_notMem_byteLines indent data⟩

theorem return_notMem_writtenScalar (indent : Nat) (v : Value) : '\r' ∉ writtenScalar indent v := by
  fun_cases writtenScalar indent v
  case case2 b => cases b <;> decide
  case case3 n => exact Value.return_notMem_intText n
  case case4 x => exact return_notMem_writtenNumber x
  case case5 s => exact return_notMem_writtenText indent s
  case case6 d => exact d.return_notMem_text
  case case7 t => exact t.return_notMem_textWith
  case case8 data => exact return_notMem_writtenBytes indent data
  all_goals decide

/-! ## Blocks -/

theorem return_notMem_newLine (indent : Nat) : '\r' ∉ newLine indent := by simp [newLine]

mutual

theorem return_notMem_written (spot : Spot) (indent : Nat) :
    ∀ v, '\r' ∉ written spot indent v
  | .list (v :: vs) => by
    have hitems (indent : Nat) := return_notMem_writtenItems indent (v :: vs)
    cases spot with
    | behindKey =>
      have h : '\r' ∉ newLine indent ++ writtenItems indent (v :: vs) := by
        simp [return_notMem_newLine, hitems]
      exact h
    | behindMark =>
      have h : '\r' ∉ ' ' :: writtenItems (indent + 2) (v :: vs) := by simp [hitems]
      exact h
  | .map (e :: es) => by
    have hentries := return_notMem_writtenEntries (indent + 2) (e :: es)
    cases spot with
    | behindKey =>
      have h : '\r' ∉ newLine (indent + 2) ++ writtenEntries (indent + 2) (e :: es) := by
        simp [return_notMem_newLine, hentries]
      exact h
    | behindMark =>
      have h : '\r' ∉ ' ' :: writtenEntries (indent + 2) (e :: es) := by simp [hentries]
      exact h
  | .set (v :: vs) => by
    have hmembers := return_notMem_writtenMembers (indent + 2) (v :: vs)
    have h : '\r' ∉ " !!set".toList ++ newLine (indent + 2) ++
        writtenMembers (indent + 2) (v :: vs) := by simp [return_notMem_newLine, hmembers]
    exact h
  | .null | .bool _ | .int _ | .float _ | .text _ | .date _ | .moment _ | .bytes _ | .list []
  | .map [] | .set [] | .enclosing _ =>
    List.not_mem_cons_of_ne_of_not_mem (by decide) (return_notMem_writtenScalar (indent + 2) _)

theorem return_notMem_writtenItems (indent : Nat) : ∀ vs, '\r' ∉ writtenItems indent vs
  | [] => by simp [writtenItems]
  | v :: vs => by
    have hv := return_notMem_written .behindMark indent v
    have hvs := return_notMem_writtenItems indent vs
    simp [writtenItems, hv, hvs, return_notMem_newLine]

theorem return_notMem_writtenEntries (indent : Nat) : ∀ es, '\r' ∉ writtenEntries indent es
  | [] => by simp [writtenEntries]
  | (k, v) :: es => by
    have hk := return_notMem_writtenScalar (indent + 2) k
    have hv (spot : Spot) := return_notMem_written spot indent v
    have hes := return_notMem_writtenEntries indent es
    rw [writtenEntries]
    split <;> simp [hk, hv, hes, return_notMem_newLine]

theorem return_notMem_writtenMembers (indent : Nat) : ∀ ks, '\r' ∉ writtenMembers indent ks
  | [] => by simp [writtenMembers]
  | k :: ks => by
    have hk := return_notMem_writtenScalar (indent + 2) k
    have hks := return_notMem_writtenMembers indent ks
    rw [writtenMembers]
    split <;> simp [hk, hks, return_notMem_newLine]

end

theorem return_notMem_documentText (entries : List (Value × Value)) :
    '\r' ∉ (documentText entries).toList := by
  rw [documentText, String.toList_ofList]
  split <;> simp [return_notMem_writtenEntries]

end Yaml

end MarkdownVault
