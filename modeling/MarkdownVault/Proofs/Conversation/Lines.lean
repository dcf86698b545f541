import MarkdownVault.Proofs.Conversation.Sections

/-!
# Sections by their lines

A separator is read off whole lines: blank lines, a rule, and a line below it. So a section is the
text of some lines, and it ends above the first rule that is neither the first line nor the last.
Blanks and empty lines beside a rule belong to it, so sections are only meant up to blanks at their
ends.
-/

namespace MarkdownVault.Conversation

/-- Lines of a text. -/
abbrev Lines := List (List Char)

variable {line : List Char} {ls mid after : Lines}

/-! ## Lines -/

def isRule (line : List Char) : Bool := Text.trim line == ['-', '-', '-']

def isBlankLine (line : List Char) : Bool := line.all Text.isBlank

/-- The text of the lines. -/
def joined (ls : Lines) : List Char := List.intercalate ['\n'] ls

theorem joined_cons_cons (l m : List Char) (ls : Lines) :
    joined (l :: m :: ls) = l ++ '\n' :: joined (m :: ls) := by
  rw [joined, List.intercalate_cons_cons, List.append_assoc, List.singleton_append, joined]

theorem joined_singleton (l : List Char) : joined [l] = l := List.intercalate_singleton

theorem exists_joined_cons (l : List Char) (ls : Lines) : ∃ rest, joined (l :: ls) = l ++ rest := by
  cases ls with
  | nil => exact ⟨[], by rw [joined_singleton, List.append_nil]⟩
  | cons m ls => exact ⟨_, joined_cons_cons l m ls⟩

theorem joined_append {ms : Lines} (hls : ls ≠ []) (hms : ms ≠ []) :
    joined (ls ++ ms) = joined ls ++ '\n' :: joined ms := by
  induction ls with
  | nil => exact absurd rfl hls
  | cons l ls ih =>
    cases ls with
    | nil =>
      obtain ⟨m, ms, rfl⟩ := List.exists_cons_of_ne_nil hms
      rw [joined_singleton, List.singleton_append, joined_cons_cons]
    | cons k ls =>
      have hrest := ih (List.cons_ne_nil k ls)
      rw [List.cons_append] at hrest ⊢
      rw [List.cons_append, joined_cons_cons, joined_cons_cons, hrest, List.append_assoc,
        List.cons_append]

theorem joined_lines (cs : List Char) : joined (Text.lines cs) = cs := List.intercalate_splitOn '\n'

theorem lines_joined (h : ∀ l ∈ ls, '\n' ∉ l) (hls : ls ≠ []) : Text.lines (joined ls) = ls :=
  List.splitOn_intercalate '\n' h hls

theorem isBlank_of_mem_joined (h : ls.all isBlankLine) : ∀ c ∈ joined ls, Text.isBlank c := by
  induction ls with
  | nil => simp [joined]
  | cons l ls ih =>
    obtain ⟨hl, hls⟩ : isBlankLine l ∧ ls.all isBlankLine := by simpa using h
    have hline : ∀ c ∈ l, Text.isBlank c := List.all_eq_true.1 hl
    cases ls with
    | nil => rwa [joined_singleton]
    | cons m ls =>
      intro c hc
      rw [joined_cons_cons, List.mem_append, List.mem_cons] at hc
      rcases hc with hc | rfl | hc
      · exact hline c hc
      · decide
      · exact ih hls c hc

theorem trim_below_blank {bs : List Char} (h : ∀ c ∈ bs, Text.isBlank c) (cs : List Char) :
    Text.trim (bs ++ '\n' :: cs) = Text.trim cs := by
  have hbreak : ∀ c ∈ ['\n'], Text.isBlank c := List.forall_mem_singleton.2 (by decide)
  rw [Text.trim_prepend h, ← List.singleton_append, Text.trim_prepend hbreak]

/-- A blank line at the start is trimmed. -/
theorem trim_joined_cons (h : isBlankLine line) (ls : Lines) :
    Text.trim (joined (line :: ls)) = Text.trim (joined ls) := by
  have hline : ∀ c ∈ line, Text.isBlank c := List.all_eq_true.1 h
  cases ls with
  | nil =>
    have htrim := Text.trim_append hline []
    rwa [joined_singleton]
  | cons m ls => rw [joined_cons_cons, trim_below_blank hline]

theorem exists_of_isRule (h : isRule line) :
    ∃ bs gap, line = bs ++ '-' :: '-' :: '-' :: gap ∧ (∀ c ∈ bs, Text.isBlank c) ∧
      ∀ c ∈ gap, Text.isBlank c := by
  obtain ⟨gap, hgap, hline⟩ := Text.exists_trim line
  rw [beq_iff_eq.1 h, List.append_assoc] at hline
  exact ⟨_, gap, hline, fun c hc => List.mem_takeWhile_imp hc, hgap⟩

theorem isRule_dashes {bs gap : List Char} (hbs : ∀ c ∈ bs, Text.isBlank c)
    (hgap : ∀ c ∈ gap, Text.isBlank c) : isRule (bs ++ '-' :: '-' :: '-' :: gap) := by
  have htrim : Text.trim (bs ++ (['-', '-', '-'] ++ gap)) = Text.trim ['-', '-', '-'] := by
    rw [Text.trim_prepend hbs, Text.trim_append hgap]
  exact beq_iff_eq.2 (htrim.trans (by decide))

theorem not_isRule_of_isBlankLine (h : isBlankLine line) : isRule line = false := by
  have htrim := Text.trim_append (List.all_eq_true.1 h) []
  rw [List.nil_append] at htrim
  rw [isRule, htrim]
  decide

theorem first_line_unique {front behind behind' : List Char} (hline : '\n' ∉ line)
    (hfront : '\n' ∉ front) (h : line ++ '\n' :: behind = front ++ '\n' :: behind') :
    line = front := by
  have hlines := congrArg (List.splitOn '\n') h
  rw [List.splitOn_append_cons_self_of_not_mem hline,
    List.splitOn_append_cons_self_of_not_mem hfront] at hlines
  exact (List.cons.inj hlines).1

/-! ## Rules that a separator is read from -/

/-- The lines below the rule that some lines begin with, but for blank lines before it. With no
line below it there is no such rule. -/
def belowRule? : Lines → Option Lines
  | [] => none
  | [_] => none
  | l :: m :: ls =>
    if isBlankLine l then belowRule? (m :: ls) else if isRule l then some (m :: ls) else none

theorem separator?_blank_line (h : isBlankLine line) (cs : List Char) :
    separator? (line ++ '\n' :: cs) = separator? cs := by
  have hbreak : Text.isBlank '\n' := by decide
  rw [separator?, separator?, List.dropWhile_append_of_pos (List.all_eq_true.1 h),
    List.dropWhile_cons_of_pos hbreak]

theorem separator?_rule (h : isRule line) (cs : List Char) :
    separator? (line ++ '\n' :: cs) = some (unled cs) := by
  obtain ⟨bs, gap, rfl, hbs, hgap⟩ := exists_of_isRule h
  have hdashes := separator?_dashes hbs hgap cs
  simpa using hdashes

/-- A line that is neither blank nor a rule stops the search for a rule. -/
theorem separator?_dark_line (hblank : ¬isBlankLine line) (hrule : ¬isRule line)
    (hline : '\n' ∉ line) (cs : List Char) : separator? (line ++ '\n' :: cs) = none := by
  rw [Option.eq_none_iff_forall_ne_some]
  intro rest hfound
  obtain ⟨bs, gap, behind, heq, hbs, hgap, hbreak⟩ := exists_of_separator? hfound
  by_cases hmem : '\n' ∈ bs
  · obtain ⟨front, more, rfl, hfront⟩ := List.eq_append_cons_of_mem hmem
    rw [List.append_assoc, List.cons_append] at heq
    obtain rfl := first_line_unique hline hfront heq
    exact hblank (List.all_eq_true.2 fun c hc => hbs c (List.mem_append_left _ hc))
  · have hdashes : '\n' ∉ bs ++ '-' :: '-' :: '-' :: gap := by simp [hmem, hbreak]
    have hlines : line ++ '\n' :: cs = bs ++ '-' :: '-' :: '-' :: gap ++ '\n' :: behind := by
      simpa using heq
    obtain rfl := first_line_unique hline hdashes hlines
    exact hrule (isRule_dashes hbs hgap)

theorem separator?_joined (h : ∀ l ∈ ls, '\n' ∉ l) :
    separator? (joined ls) = (belowRule? ls).map (unled ∘ joined) := by
  induction ls with
  | nil => exact separator?_of_blank (isBlank_of_mem_joined rfl)
  | cons l ls ih =>
    obtain ⟨hl, hls⟩ := List.forall_mem_cons.1 h
    cases ls with
    | nil =>
      rw [joined_singleton, belowRule?, Option.map_none, Option.eq_none_iff_forall_ne_some]
      intro rest hfound
      obtain ⟨bs, gap, behind, rfl, -⟩ := exists_of_separator? hfound
      simp at hl
    | cons m ls =>
      rw [joined_cons_cons, belowRule?]
      by_cases hblank : isBlankLine l
      · rw [if_pos hblank, separator?_blank_line hblank, ih hls]
      · rw [if_neg hblank]
        by_cases hrule : isRule l
        · rw [if_pos hrule, separator?_rule hrule]
          rfl
        · rw [if_neg hrule, separator?_dark_line hblank hrule hl]
          rfl

/-- A blank line is passed over, and other lines but rules end the search. -/
theorem belowRule?_cons (hline : isRule line = false) (hls : ls ≠ []) :
    belowRule? (line :: ls) = if isBlankLine line then belowRule? ls else none := by
  obtain ⟨m, ls, rfl⟩ := List.exists_cons_of_ne_nil hls
  rw [belowRule?, hline, if_neg Bool.false_ne_true]

theorem belowRule?_of_dropLast (h : ∀ l ∈ ls.dropLast, isRule l = false) : belowRule? ls = none := by
  induction ls with
  | nil => rfl
  | cons l ls ih =>
    cases ls with
    | nil => rfl
    | cons m ls =>
      obtain ⟨hl, hls⟩ := List.forall_mem_cons.1 h
      rw [belowRule?_cons hl (List.cons_ne_nil m ls), ih hls, ite_self]

/-- Only blank lines may stand before the rule. -/
theorem belowRule?_append_rule (hmid : ∀ l ∈ mid, isRule l = false) (hrule : isRule line)
    (hafter : after ≠ []) :
    belowRule? (mid ++ line :: after) = if mid.all isBlankLine then some after else none := by
  induction mid with
  | nil =>
    obtain ⟨m, after, rfl⟩ := List.exists_cons_of_ne_nil hafter
    have hdark : ¬isBlankLine line := by
      intro hblank
      rw [not_isRule_of_isBlankLine hblank] at hrule
      cases hrule
    rw [List.nil_append, belowRule?, if_neg hdark, if_pos hrule]
    rfl
  | cons l mid ih =>
    obtain ⟨hl, hmid⟩ := List.forall_mem_cons.1 hmid
    rw [List.cons_append, belowRule?_cons hl (by simp), ih hmid, List.all_cons]
    cases isBlankLine l <;> rfl

theorem unled_of_dark_line (hblank : ¬isBlankLine line) (hline : '\n' ∉ line) (cs : List Char) :
    unled (line ++ cs) = line ++ cs := by
  apply unled_of_not_mem
  rw [List.takeWhile_append]
  split
  case isTrue hlength =>
    have hall := (List.takeWhile_prefix Text.isBlank).eq_of_length hlength
    exact absurd (List.all_eq_true.2 (List.takeWhile_eq_self_iff.1 hall)) hblank
  case isFalse => exact fun hmem => hline ((List.takeWhile_prefix _).subset hmem)

/-! ## Sections by their lines -/

theorem sections_joined_uncut (hline : '\n' ∉ line) (hls : ls ≠ [])
    (h : separator? (joined ls) = none) :
    sections (joined (line :: ls)) = (sections (joined ls)).modifyHead (line ++ '\n' :: ·) := by
  obtain ⟨m, ls, rfl⟩ := List.exists_cons_of_ne_nil hls
  rw [joined_cons_cons, sections_append hline, sections_cons fun _ => h, List.modifyHead_modifyHead]
  rfl

theorem sections_joined_cut {rest : List Char} (hline : '\n' ∉ line) (hls : ls ≠ [])
    (h : separator? (joined ls) = some rest) :
    sections (joined (line :: ls)) = line :: sections rest := by
  obtain ⟨m, ls, rfl⟩ := List.exists_cons_of_ne_nil hls
  rw [joined_cons_cons, sections_append hline, sections_separated h, List.modifyHead_cons,
    List.append_nil]

/-- Lines with no rule but maybe the first and the last are one section. -/
theorem sections_joined_of_dropLast (hbreak : ∀ l ∈ line :: ls, '\n' ∉ l)
    (h : ∀ l ∈ ls.dropLast, isRule l = false) :
    sections (joined (line :: ls)) = [joined (line :: ls)] := by
  induction ls generalizing line with
  | nil =>
    have hline := sections_append (hbreak line List.mem_cons_self) []
    rw [List.append_nil, sections_nil, List.modifyHead_cons, List.append_nil] at hline
    rwa [joined_singleton]
  | cons m ls ih =>
    obtain ⟨hline, hrest⟩ := List.forall_mem_cons.1 hbreak
    have hnone : separator? (joined (m :: ls)) = none := by
      rw [separator?_joined hrest, belowRule?_of_dropLast h, Option.map_none]
    have hls : ∀ l ∈ ls.dropLast, isRule l = false := by
      cases ls with
      | nil => simp
      | cons k ls => exact (List.forall_mem_cons.1 h).2
    rw [sections_joined_uncut hline (List.cons_ne_nil m ls) hnone, ih hrest hls,
      List.modifyHead_cons, joined_cons_cons]

/-- The first rule that is neither the first line nor the last ends the first section, which is
the text of the lines above but for blanks at their end. -/
theorem exists_sections_joined {rule : List Char}
    (hbreak : ∀ l ∈ line :: (mid ++ rule :: after), '\n' ∉ l)
    (hmid : ∀ l ∈ mid, isRule l = false) (hrule : isRule rule) (hafter : after ≠ []) :
    ∃ front gap, joined (line :: mid) = front ++ gap ∧ (∀ c ∈ gap, Text.isBlank c) ∧
      sections (joined (line :: (mid ++ rule :: after))) =
        front :: sections (unled (joined after)) := by
  induction mid generalizing line with
  | nil =>
    obtain ⟨hline, hrest⟩ := List.forall_mem_cons.1 hbreak
    have hfound := separator?_joined hrest
    rw [belowRule?_append_rule hmid hrule hafter] at hfound
    refine ⟨line, [], ?_, by simp, sections_joined_cut hline (by simp) hfound⟩
    rw [joined_singleton, List.append_nil]
  | cons m mid ih =>
    obtain ⟨hline, hrest⟩ := List.forall_mem_cons.1 hbreak
    have hfound := separator?_joined hrest
    rw [belowRule?_append_rule hmid hrule hafter] at hfound
    by_cases hblank : (m :: mid).all isBlankLine
    · rw [if_pos hblank] at hfound
      refine ⟨line, '\n' :: joined (m :: mid), joined_cons_cons line m mid,
        List.forall_mem_cons.2 ⟨by decide, isBlank_of_mem_joined hblank⟩,
        sections_joined_cut hline (by simp) hfound⟩
    · rw [if_neg hblank] at hfound
      obtain ⟨front, gap, hjoined, hgap, hsections⟩ := ih hrest (List.forall_mem_cons.1 hmid).2
      refine ⟨line ++ '\n' :: front, gap, ?_, hgap, ?_⟩
      · rw [joined_cons_cons, hjoined, List.append_assoc, List.cons_append]
      · have hsection := sections_joined_uncut hline (by simp) hfound
        rw [List.cons_append] at hsection ⊢
        rw [hsection, hsections, List.modifyHead_cons]

/-! ## Parts with rules between them -/

/-- A text with no rule below its first line, line by line. -/
theorem exists_lines_of_uncut {cs : List Char} (h : Uncut cs) : ∃ line ls,
    cs = joined (line :: ls) ∧ (∀ l ∈ line :: ls, '\n' ∉ l) ∧ ∀ l ∈ ls, isRule l = false := by
  obtain ⟨line, ls, hlines⟩ : ∃ line ls, Text.lines cs = line :: ls :=
    List.exists_cons_of_ne_nil (List.splitOn_ne_nil '\n' cs)
  have hcs : cs = joined (line :: ls) := (joined_lines cs).symm.trans (congrArg joined hlines)
  have hbreak : ∀ l ∈ line :: ls, '\n' ∉ l := by
    rw [← hlines]
    exact fun l hl => break_not_mem_of_mem_lines hl
  refine ⟨line, ls, hcs, hbreak, fun l hl => ?_⟩
  have hls : ls ≠ [] := List.ne_nil_of_mem hl
  have hbelow : '\n' :: joined ls <:+ cs := by
    obtain ⟨m, ms, rfl⟩ := List.exists_cons_of_ne_nil hls
    exact ⟨line, by rw [hcs, joined_cons_cons]⟩
  rw [← Bool.not_eq_true]
  intro hrule
  refine h _ hbelow ⟨l, ?_, beq_iff_eq.1 hrule⟩
  rwa [lines_joined (List.forall_mem_cons.1 hbreak).2 hls]

/-- A text with no rule below its first line is one section. -/
theorem sections_of_uncut {cs : List Char} (h : Uncut cs) : sections cs = [cs] := by
  obtain ⟨line, ls, rfl, hbreak, hrules⟩ := exists_lines_of_uncut h
  exact sections_joined_of_dropLast hbreak fun l hl => hrules l (List.dropLast_subset ls hl)

/-- What stands between two parts. -/
def joint : List Char := "\n\n---\n\n".toList

/-- The first section is what stands before the first joint, and the others are those of what
follows the empty lines behind it. -/
theorem exists_sections_append {cs : List Char} (h : Uncut cs) (next : List Char) :
    ∃ front lead rest, Text.trim front = Text.trim cs ∧ next = lead ++ rest ∧
      (∀ c ∈ lead, Text.isBlank c) ∧ sections (cs ++ (joint ++ next)) = front :: sections rest := by
  obtain ⟨line, ls, rfl, hbreak, hrules⟩ := exists_lines_of_uncut h
  have hnext : Text.lines next ≠ [] := List.splitOn_ne_nil '\n' next
  have hblank : joined ([] :: Text.lines next) = [] ++ '\n' :: next := by
    rw [← List.singleton_append, joined_append (List.cons_ne_nil _ _) hnext, joined_singleton,
      joined_lines]
  have hupper : joined (line :: (ls ++ [[]])) = joined (line :: ls) ++ ['\n'] := by
    rw [← List.cons_append, joined_append (by simp) (by simp), joined_singleton]
  have htext : joined (line :: ls) ++ (joint ++ next) =
      joined (line :: (ls ++ [[]] ++ ['-', '-', '-'] :: [] :: Text.lines next)) := by
    rw [← List.cons_append, joined_append (by simp) (by simp), joined_cons_cons, hblank, hupper,
      List.append_assoc]
    rfl
  have hlines : ∀ l ∈ line :: (ls ++ [[]] ++ ['-', '-', '-'] :: [] :: Text.lines next), '\n' ∉ l := by
    intro l hl
    simp only [List.mem_cons, List.mem_append, List.not_mem_nil, or_false] at hl
    rcases hl with rfl | (hl | rfl) | rfl | rfl | hl
    · exact hbreak l List.mem_cons_self
    · exact hbreak l (List.mem_cons_of_mem line hl)
    · simp
    · decide
    · simp
    · exact break_not_mem_of_mem_lines hl
  have hmid : ∀ l ∈ ls ++ [[]], isRule l = false := by
    intro l hl
    rcases List.mem_append.1 hl with hl | hl
    · exact hrules l hl
    · rw [List.mem_singleton.1 hl]
      decide
  obtain ⟨front, gap, hfront, hgap, hsections⟩ :=
    exists_sections_joined hlines hmid (by decide) (by simp)
  obtain ⟨lead, hlead, hblanks⟩ := exists_unled next
  refine ⟨front, lead, unled next, ?_, hlead, hblanks, ?_⟩
  · have hbreak : ∀ c ∈ ['\n'], Text.isBlank c := List.forall_mem_singleton.2 (by decide)
    rw [← Text.trim_append hgap, ← hfront, hupper, Text.trim_append hbreak]
  · rw [htext, hsections, hblank, unled_prepend (by simp)]

/-- Behind the first of joined parts. -/
theorem intercalate_cons (part : List Char) (parts : List (List Char)) :
    joint.intercalate (part :: parts) = part ++ (parts.map (joint ++ ·)).flatten := by
  induction parts generalizing part with
  | nil => simp
  | cons next parts ih =>
    rw [List.intercalate_cons_cons, ih next]
    simp

/-- Parts without rules that are joined by rules are the sections, but for blanks at their
ends. -/
theorem map_trim_sections {part : List Char} {parts : List (List Char)} (hpart : Uncut part)
    (hparts : ∀ p ∈ parts, ¬HasRule p ∧ ∃ c ∈ p, ¬Text.isBlank c) :
    (sections (joint.intercalate (part :: parts))).map Text.trim =
      (part :: parts).map Text.trim := by
  induction parts generalizing part with
  | nil => rw [List.intercalate_singleton, sections_of_uncut hpart]
  | cons next parts ih =>
    obtain ⟨⟨hrule, c, hc, hdark⟩, hothers⟩ := List.forall_mem_cons.1 hparts
    obtain ⟨front, lead, rest, hfront, hnext, hlead, hsections⟩ :=
      exists_sections_append hpart (joint.intercalate (next :: parts))
    rw [intercalate_cons] at hnext
    rcases List.append_eq_append_iff.1 hnext with ⟨more, rfl, -⟩ | ⟨inner, rfl, hinner⟩
    · exact absurd (hlead c (List.mem_append_left more hc)) hdark
    · have huncut : Uncut inner :=
        (uncut_of_not_hasRule hrule).suffix (List.suffix_append lead inner)
      have hrest := ih huncut hothers
      rw [intercalate_cons, ← hinner] at hrest
      rw [List.intercalate_cons_cons, List.append_assoc, hsections, List.map_cons, hrest,
        List.map_cons, List.map_cons, List.map_cons, hfront, Text.trim_prepend hlead]

end MarkdownVault.Conversation
