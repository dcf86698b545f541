import MarkdownVault.Conversation.Message
import MarkdownVault.Proofs.Text.Cutting

/-!
# Rules and separators

A rule is a line of three dashes between blanks. A separator takes the blanks and empty lines beside
a rule along.
-/

namespace MarkdownVault.Conversation

variable {cs rest : List Char}

/-! ## Lines that are rules -/

/-- One of the lines is a rule. -/
def HasRule (cs : List Char) : Prop := ∃ line ∈ Text.lines cs, Text.trim line = ['-', '-', '-']

instance (cs : List Char) : Decidable (HasRule cs) :=
  inferInstanceAs (Decidable (∃ line ∈ Text.lines cs, Text.trim line = ['-', '-', '-']))

theorem lines_append (before after : List Char) :
    Text.lines (before ++ '\n' :: after) = Text.lines before ++ Text.lines after :=
  List.splitOn_append_cons_self before after

theorem HasRule.append {after : List Char} (h : HasRule after) (before : List Char) :
    HasRule (before ++ '\n' :: after) := by
  obtain ⟨line, hline, htrim⟩ := h
  refine ⟨line, ?_, htrim⟩
  rw [lines_append]
  exact List.mem_append_right _ hline

theorem exists_lines_cons {c : Char} (hc : c ≠ '\n') (cs : List Char) :
    ∃ first others, Text.lines cs = first :: others ∧
      Text.lines (c :: cs) = (c :: first) :: others := by
  obtain ⟨first, others, hcs⟩ := List.exists_cons_of_ne_nil (List.splitOn_ne_nil '\n' cs)
  refine ⟨first, others, hcs, ?_⟩
  rw [Text.lines, List.splitOn_cons_eq_if_modifyHead, beq_false_of_ne hc,
    if_neg Bool.false_ne_true, hcs, List.modifyHead_cons]

theorem exists_lines_append {bs : List Char} (hbs : '\n' ∉ bs) (cs : List Char) :
    ∃ first others, Text.lines cs = first :: others ∧
      Text.lines (bs ++ cs) = (bs ++ first) :: others := by
  induction bs with
  | nil =>
    obtain ⟨first, others, hcs⟩ := List.exists_cons_of_ne_nil (List.splitOn_ne_nil '\n' cs)
    exact ⟨first, others, hcs, hcs⟩
  | cons c bs ih =>
    obtain ⟨hc, hrest⟩ := List.ne_and_not_mem_of_not_mem_cons hbs
    obtain ⟨first, others, hcs, hlines⟩ := ih hrest
    obtain ⟨first', others', hfirst, hcons⟩ := exists_lines_cons hc.symm (bs ++ cs)
    cases hlines.symm.trans hfirst
    exact ⟨first, others, hcs, hcons⟩

theorem break_not_mem_of_mem_lines {line : List Char} (h : line ∈ Text.lines cs) : '\n' ∉ line := by
  induction cs generalizing line with
  | nil =>
    obtain rfl := List.mem_singleton.1 h
    simp
  | cons c cs ih =>
    by_cases hbreak : c = '\n'
    · have hlines : Text.lines (c :: cs) = [] :: Text.lines cs := hbreak ▸ lines_append [] cs
      rw [hlines] at h
      rcases List.mem_cons.1 h with rfl | h
      · simp
      · exact ih h
    · obtain ⟨first, others, hcs, hlines⟩ := exists_lines_cons hbreak cs
      rw [hcs] at ih
      rw [hlines] at h
      rcases List.mem_cons.1 h with rfl | h
      · simpa [Ne.symm hbreak] using ih List.mem_cons_self
      · exact ih (List.mem_cons_of_mem first h)

/-- A line in which something else than dashes is put in front is no rule. -/
theorem hasRule_of_prepend {bs cs : List Char} (hbs : '\n' ∉ bs) (hmark : '*' ∈ bs)
    (h : HasRule (bs ++ cs)) : HasRule cs := by
  obtain ⟨first, others, hcs, hlines⟩ := exists_lines_append hbs cs
  obtain ⟨line, hline, htrim⟩ := h
  rw [hlines] at hline
  rcases List.mem_cons.1 hline with rfl | hline
  · have hmem : '*' ∈ Text.trim (bs ++ first) :=
      Text.mem_trim (List.mem_append_left first hmark) (by decide)
    rw [htrim] at hmem
    exact absurd hmem (by decide)
  · exact ⟨line, hcs ▸ List.mem_cons_of_mem first hline, htrim⟩

/-- No rule below the first line. -/
def Uncut (cs : List Char) : Prop := ∀ below, '\n' :: below <:+ cs → ¬HasRule below

theorem uncut_of_not_hasRule (h : ¬HasRule cs) : Uncut cs := by
  rintro below ⟨before, rfl⟩ hbelow
  exact h (hbelow.append before)

theorem Uncut.suffix {below : List Char} (h : Uncut cs) (hsuffix : below <:+ cs) : Uncut below :=
  fun lower hlower => h lower (hlower.trans hsuffix)

/-! ## Separators -/

theorem mem_of_afterLastBreak? (h : afterLastBreak? cs = some rest) : '\n' ∈ cs := by
  induction cs generalizing rest with
  | nil => cases h
  | cons c cs ih =>
    unfold afterLastBreak? at h
    split at h
    case h_1 hfound => exact List.mem_cons_of_mem c (ih hfound)
    case h_2 =>
      obtain ⟨rfl, -⟩ := Option.ite_none_right_eq_some.1 h
      exact List.mem_cons_self

theorem suffix_of_afterLastBreak? (h : afterLastBreak? cs = some rest) : rest <:+ cs := by
  induction cs generalizing rest with
  | nil => cases h
  | cons c cs ih =>
    unfold afterLastBreak? at h
    split at h
    case h_1 hfound =>
      cases h
      exact (ih hfound).trans (List.suffix_cons c cs)
    case h_2 =>
      obtain ⟨-, ⟨⟩⟩ := Option.ite_none_right_eq_some.1 h
      exact List.suffix_cons c cs

/-- Behind a line feed what follows the last one is not more than what follows the first. -/
theorem exists_afterLastBreak? (cs : List Char) :
    ∃ rest, afterLastBreak? ('\n' :: cs) = some rest ∧ rest <:+ cs := by
  rw [afterLastBreak?]
  split
  case h_1 rest hfound => exact ⟨rest, rfl, suffix_of_afterLastBreak? hfound⟩
  case h_2 => exact ⟨cs, if_pos rfl, List.suffix_refl cs⟩

/-- A separator is a line feed, blanks, three dashes, and blanks up to a line feed. -/
theorem exists_of_separator? (h : separator? cs = some rest) :
    ∃ bs gap after, cs = bs ++ '-' :: '-' :: '-' :: (gap ++ '\n' :: after) ∧
      (∀ c ∈ bs, Text.isBlank c) ∧ (∀ c ∈ gap, Text.isBlank c) ∧ '\n' ∉ gap := by
  unfold separator? at h
  split at h
  case h_1 => cases h
  case h_2 tail htail =>
    obtain ⟨behind, hbehind, -⟩ := Option.map_eq_some_iff.1 h
    obtain ⟨gap, more, htake, hgap⟩ := List.eq_append_cons_of_mem (mem_of_afterLastBreak? hbehind)
    refine ⟨cs.takeWhile Text.isBlank, gap, more ++ tail.dropWhile Text.isBlank, ?_,
      fun c hc => List.mem_takeWhile_imp hc, fun c hc => ?_, hgap⟩
    · have hcs := List.takeWhile_append_dropWhile (p := Text.isBlank) (l := cs)
      have hblank := List.takeWhile_append_dropWhile (p := Text.isBlank) (l := tail)
      rw [htake, List.append_assoc, List.cons_append] at hblank
      rw [Text.eq_of_dropStart? htail, ← hblank] at hcs
      exact hcs.symm
    · have hmem : c ∈ tail.takeWhile Text.isBlank := by simp [htake, hc]
      exact List.mem_takeWhile_imp hmem

/-- Of blanks alone no separator is made. -/
theorem separator?_of_blank (h : ∀ c ∈ cs, Text.isBlank c) : separator? cs = none := by
  rw [separator?, List.dropWhile_eq_nil_iff.2 h]
  rfl

/-- What a rule leaves of the text below it: all but the lines of blanks at its start. -/
def unled (cs : List Char) : List Char :=
  (afterLastBreak? ('\n' :: cs.takeWhile Text.isBlank)).getD [] ++ cs.dropWhile Text.isBlank

theorem afterLastBreak?_append (h : afterLastBreak? cs = some rest) (bs : List Char) :
    afterLastBreak? (bs ++ cs) = some rest := by
  induction bs with
  | nil => exact h
  | cons c bs ih => rw [List.cons_append, afterLastBreak?, ih]

theorem exists_unled (cs : List Char) :
    ∃ lead, cs = lead ++ unled cs ∧ ∀ c ∈ lead, Text.isBlank c := by
  obtain ⟨behind, hbehind, lead, hlead⟩ := exists_afterLastBreak? (cs.takeWhile Text.isBlank)
  refine ⟨lead, ?_, fun c hc => ?_⟩
  · rw [unled, hbehind, Option.getD_some, ← List.append_assoc, hlead,
      List.takeWhile_append_dropWhile]
  · have hmem : c ∈ cs.takeWhile Text.isBlank := hlead ▸ List.mem_append_left behind hc
    exact List.mem_takeWhile_imp hmem

/-- Lines of blanks are passed over. -/
theorem unled_prepend {bs : List Char} (hbs : ∀ c ∈ bs, Text.isBlank c) (cs : List Char) :
    unled (bs ++ '\n' :: cs) = unled cs := by
  obtain ⟨behind, hbehind, -⟩ := exists_afterLastBreak? (cs.takeWhile Text.isBlank)
  have hbreak : Text.isBlank '\n' := by decide
  have hlast := afterLastBreak?_append hbehind ('\n' :: bs)
  rw [List.cons_append] at hlast
  rw [unled, unled, List.takeWhile_append_of_pos hbs, List.dropWhile_append_of_pos hbs,
    List.takeWhile_cons_of_pos hbreak, List.dropWhile_cons_of_pos hbreak, hlast, hbehind]

/-- Blanks that no line feed is among stay. -/
theorem unled_of_not_mem (h : '\n' ∉ cs.takeWhile Text.isBlank) : unled cs = cs := by
  have hnone : afterLastBreak? (cs.takeWhile Text.isBlank) = none := by
    rw [Option.eq_none_iff_forall_ne_some]
    exact fun rest hrest => h (mem_of_afterLastBreak? hrest)
  rw [unled, afterLastBreak?, hnone]
  exact List.takeWhile_append_dropWhile

/-- A rule is found from any of the blanks before it. -/
theorem separator?_dashes {bs gap : List Char} (hbs : ∀ c ∈ bs, Text.isBlank c)
    (hgap : ∀ c ∈ gap, Text.isBlank c) (next : List Char) :
    separator? (bs ++ '-' :: '-' :: '-' :: (gap ++ '\n' :: next)) = some (unled next) := by
  have hdrop : (bs ++ '-' :: '-' :: '-' :: (gap ++ '\n' :: next)).dropWhile Text.isBlank =
      ['-', '-', '-'] ++ (gap ++ '\n' :: next) := List.dropWhile_append_of_pos hbs
  obtain ⟨behind, hbehind, -⟩ := exists_afterLastBreak? (next.takeWhile Text.isBlank)
  have hbreak : Text.isBlank '\n' := by decide
  rw [separator?, hdrop, Text.dropStart?_prefix]
  simp only [List.takeWhile_append_of_pos hgap, List.dropWhile_append_of_pos hgap,
    List.takeWhile_cons_of_pos hbreak, List.dropWhile_cons_of_pos hbreak,
    afterLastBreak?_append hbehind, Option.map_some, unled, hbehind, Option.getD_some]

/-! ## Sections -/

theorem sections_nil : sections [] = [[]] := by rw [sections]

theorem sections_separated (h : separator? cs = some rest) :
    sections ('\n' :: cs) = [] :: sections rest := by
  rw [sections]
  split
  case h_1 hfound =>
    rw [if_pos rfl, h] at hfound
    cases hfound
    rfl
  case h_2 hnone =>
    rw [if_pos rfl, h] at hnone
    cases hnone

theorem sections_cons {c : Char} (h : c = '\n' → separator? cs = none) :
    sections (c :: cs) = (sections cs).modifyHead (c :: ·) := by
  rw [sections]
  split
  case h_1 hfound =>
    obtain ⟨hbreak, hfound⟩ := Option.ite_none_right_eq_some.1 hfound
    cases (h hbreak).symm.trans hfound
  case h_2 => rfl

/-- Within a line nothing is cut. -/
theorem sections_append {line : List Char} (h : '\n' ∉ line) (cs : List Char) :
    sections (line ++ cs) = (sections cs).modifyHead (line ++ ·) := by
  induction line with
  | nil => exact (congrFun List.modifyHead_id (sections cs)).symm
  | cons c line ih =>
    obtain ⟨hc, hline⟩ := List.ne_and_not_mem_of_not_mem_cons h
    rw [List.cons_append, sections_cons fun hbreak => absurd hbreak.symm hc, ih hline,
      List.modifyHead_modifyHead]
    rfl

end MarkdownVault.Conversation
