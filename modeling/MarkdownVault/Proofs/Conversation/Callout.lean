import MarkdownVault.Conversation.Detection
import MarkdownVault.Proofs.Conversation.Lines
import MarkdownVault.Proofs.Conversation.Marker

/-!
# Callouts of a text and of its lines

The types that are told of a note are read off the whole text, where the blanks of a mark may go
over line ends, and callouts are read off lines. The two differ in marks that begin on a line with
nothing else and end on one below.
-/

namespace MarkdownVault.Conversation

variable {cs type rest tail line : List Char} {ls : Lines}

/-! ## One mark -/

/-- A type in brackets and the text behind. -/
def bracketed? : List Char → Option (List Char × List Char)
  | '[' :: '!' :: cs =>
    match cs.dropWhile Text.isWordChar with
    | ']' :: rest =>
      if (cs.takeWhile Text.isWordChar).isEmpty then none
      else some (cs.takeWhile Text.isWordChar, rest)
    | _ => none
  | _ => none

theorem calloutMark?_quote (cs : List Char) :
    calloutMark? ('>' :: cs) = bracketed? (cs.dropWhile Text.isBlank) := rfl

theorem calloutMark?_of_ne (h : ∀ inner, cs ≠ '>' :: inner) : calloutMark? cs = none := by
  unfold calloutMark?
  split
  · exact absurd rfl (h _)
  · rfl

theorem bracketed?_of_ne (h : ∀ inner, cs ≠ '[' :: '!' :: inner) : bracketed? cs = none := by
  unfold bracketed?
  split
  · exact absurd rfl (h _)
  · rfl

theorem bracketed?_eq_some_iff : bracketed? cs = some (type, rest) ↔
    IsName type ∧ cs = '[' :: '!' :: (type ++ ']' :: rest) := by
  constructor
  · intro h
    unfold bracketed? at h
    split at h
    · rename_i inner
      split at h
      · rename_i after hafter
        obtain ⟨hne, h⟩ := Option.ite_none_left_eq_some.1 h
        cases h
        refine ⟨⟨by simpa using hne, fun c hc => List.mem_takeWhile_imp hc⟩, ?_⟩
        rw [← hafter, List.takeWhile_append_dropWhile]
      · cases h
    · cases h
  · rintro ⟨hname, rfl⟩
    have hend : Text.isWordChar ']' = false := by decide +kernel
    obtain ⟨htake, hdrop⟩ := Text.span_of_stop hname.2 hend rest
    simp [bracketed?, htake, hdrop, hname.1]

/-- What stands behind a line: nothing, or a line end and more. -/
def Breaks (tail : List Char) : Prop := ∀ c ∈ tail.head?, c = '\n'

theorem span_append {p : Char → Bool} (hp : p '\n' = false) (htail : Breaks tail)
    (cs : List Char) : (cs ++ tail).takeWhile p = cs.takeWhile p ∧
      (cs ++ tail).dropWhile p = cs.dropWhile p ++ tail := by
  induction cs with
  | nil =>
    cases tail with
    | nil => exact ⟨rfl, rfl⟩
    | cons c tail =>
      obtain rfl := htail c rfl
      simp [hp]
  | cons c cs ih => by_cases hc : p c <;> simp [hc, ih]

/-- Brackets are found on the line on which they begin. -/
theorem bracketed?_append (hcs : cs ≠ []) (htail : Breaks tail) :
    bracketed? (cs ++ tail) = (bracketed? cs).map fun (type, rest) => (type, rest ++ tail) := by
  by_cases hstart : ∃ inner, cs = '[' :: '!' :: inner
  · obtain ⟨inner, rfl⟩ := hstart
    obtain ⟨htake, hdrop⟩ := span_append (p := Text.isWordChar) (by decide +kernel) htail inner
    simp only [List.cons_append, bracketed?, htake, hdrop]
    rcases inner.dropWhile Text.isWordChar with _ | ⟨c, after⟩
    · cases tail with
      | nil => rfl
      | cons c tail =>
        obtain rfl := htail c rfl
        rfl
    · by_cases hc : c = ']'
      · subst hc
        by_cases hempty : (inner.takeWhile Text.isWordChar).isEmpty <;> simp [hempty]
      · simp [hc]
  · have hnone : ∀ inner, cs ++ tail ≠ '[' :: '!' :: inner := by
      intro inner h
      rcases cs with _ | ⟨c, _ | ⟨d, cs⟩⟩
      · exact hcs rfl
      · cases h
        cases htail '!' rfl
      · cases h
        exact hstart ⟨_, rfl⟩
    rw [bracketed?_of_ne hnone, bracketed?_of_ne (not_exists.1 hstart), Option.map_none]

/-- A mark ends on the line that it begins on, unless this line is `>` and blanks. -/
theorem calloutMark?_append (hdark : ¬isBlankLine cs) (htail : Breaks tail) :
    calloutMark? ('>' :: (cs ++ tail)) =
      (calloutMark? ('>' :: cs)).map fun (type, rest) => (type, rest ++ tail) := by
  have hne : cs.dropWhile Text.isBlank ≠ [] :=
    fun h => hdark (List.all_eq_true.2 (List.dropWhile_eq_nil_iff.1 h))
  have hempty : ¬(cs.dropWhile Text.isBlank).isEmpty := by simpa using hne
  rw [calloutMark?_quote, calloutMark?_quote, List.dropWhile_append, if_neg hempty,
    bracketed?_append hne htail]

/-- Otherwise it goes on behind the line end. -/
theorem calloutMark?_blank (hblank : isBlankLine cs) (rest : List Char) :
    calloutMark? ('>' :: (cs ++ rest)) = calloutMark? ('>' :: rest) := by
  rw [calloutMark?_quote, calloutMark?_quote,
    List.dropWhile_append_of_pos (List.all_eq_true.1 hblank)]

/-- No other mark begins inside of one. -/
theorem exists_of_calloutMark? (h : calloutMark? ('>' :: cs) = some (type, rest)) :
    ∃ front, cs = front ++ ']' :: rest ∧ '>' ∉ front := by
  rw [calloutMark?_quote] at h
  obtain ⟨⟨-, htype⟩, hcs⟩ := bracketed?_eq_some_iff.1 h
  refine ⟨cs.takeWhile Text.isBlank ++ '[' :: '!' :: type, ?_, ?_⟩
  · rw [List.append_assoc, List.cons_append, List.cons_append, ← hcs,
      List.takeWhile_append_dropWhile]
  · simp only [List.mem_append, List.mem_cons, not_or]
    refine ⟨fun hmem => ?_, by decide, by decide, fun hmem => ?_⟩
    · cases List.mem_takeWhile_imp hmem
    · have hword := htype '>' hmem
      revert hword
      decide +kernel

/-! ## The scan of a text -/

theorem calloutMarksFrom_found (h : calloutMark? cs = some (type, rest)) :
    calloutMarksFrom true cs = type :: calloutMarksFrom false rest := by
  rw [calloutMarksFrom]
  split
  case h_1 hfound =>
    rw [if_pos rfl, h] at hfound
    cases hfound
    rfl
  case h_2 hnone =>
    rw [if_pos rfl, h] at hnone
    cases hnone

theorem calloutMarksFrom_nil (lineStart : Bool) : calloutMarksFrom lineStart [] = [] := by
  have hnone : calloutMark? [] = none := rfl
  rw [calloutMarksFrom]
  split
  case h_1 hfound => simp [hnone] at hfound
  case h_2 => rfl

theorem calloutMarksFrom_passed {lineStart : Bool} {c : Char}
    (h : lineStart → calloutMark? (c :: cs) = none) :
    calloutMarksFrom lineStart (c :: cs) = calloutMarksFrom (c == '\n') cs := by
  rw [calloutMarksFrom]
  split
  case h_1 hfound =>
    obtain ⟨hstart, hfound⟩ := Option.ite_none_right_eq_some.1 hfound
    cases (h hstart).symm.trans hfound
  case h_2 => rfl

theorem calloutMarksFrom_false (c : Char) (cs : List Char) :
    calloutMarksFrom false (c :: cs) = calloutMarksFrom (c == '\n') cs :=
  calloutMarksFrom_passed nofun

/-- Nothing is found up to a bracket if no `>` stands before it. -/
theorem calloutMarksFrom_bracket {front : List Char} (h : '>' ∉ front) (lineStart : Bool)
    (rest : List Char) :
    calloutMarksFrom lineStart (front ++ ']' :: rest) = calloutMarksFrom false rest := by
  induction front generalizing lineStart with
  | nil => exact calloutMarksFrom_passed fun _ => rfl
  | cons c front ih =>
    obtain ⟨hc, hfront⟩ := List.ne_and_not_mem_of_not_mem_cons h
    have hnone : calloutMark? (c :: (front ++ ']' :: rest)) = none :=
      calloutMark?_of_ne fun inner heq => hc (List.cons.inj heq).1.symm
    rw [List.cons_append, calloutMarksFrom_passed fun _ => hnone, ih hfront]

/-- What stands behind the first line of a text. -/
def belowFirst : Lines → List Char
  | [] => []
  | l :: ls => '\n' :: joined (l :: ls)

theorem joined_cons (l : List Char) (ls : Lines) : joined (l :: ls) = l ++ belowFirst ls := by
  cases ls with
  | nil => rw [joined_singleton, belowFirst, List.append_nil]
  | cons m ls => rw [joined_cons_cons, belowFirst]

theorem breaks_belowFirst (ls : Lines) : Breaks (belowFirst ls) := by
  cases ls with
  | nil => rintro _ ⟨⟩
  | cons l ls =>
    rintro _ ⟨⟩
    rfl

/-- Behind a mark nothing is found on the same line. -/
theorem calloutMarksFrom_inLine (hline : '\n' ∉ line) (ls : Lines) :
    calloutMarksFrom false (line ++ belowFirst ls) = calloutMarksFrom true (joined ls) := by
  induction line with
  | nil =>
    cases ls with
    | nil => rw [List.nil_append, belowFirst, calloutMarksFrom_nil, joined, List.intercalate_nil,
        calloutMarksFrom_nil]
    | cons l ls => exact calloutMarksFrom_false _ _
  | cons c line ih =>
    obtain ⟨hc, hrest⟩ := List.ne_and_not_mem_of_not_mem_cons hline
    rw [List.cons_append, calloutMarksFrom_false, beq_false_of_ne hc.symm, ih hrest]

theorem calloutMarksFrom_passedLine (hline : '\n' ∉ line)
    (h : calloutMark? (line ++ belowFirst ls) = none) :
    calloutMarksFrom true (line ++ belowFirst ls) = calloutMarksFrom true (joined ls) := by
  cases line with
  | nil =>
    cases ls with
    | nil => rfl
    | cons l ls => exact calloutMarksFrom_passed fun _ => h
  | cons c line =>
    obtain ⟨hc, hrest⟩ := List.ne_and_not_mem_of_not_mem_cons hline
    rw [List.cons_append] at h ⊢
    rw [calloutMarksFrom_passed fun _ => h, beq_false_of_ne hc.symm, calloutMarksFrom_inLine hrest]

/-! ## Marks by lines -/

/-- A line of `>` and blanks. -/
def isBareQuote : List Char → Bool
  | '>' :: cs => isBlankLine cs
  | _ => false

theorem isBareQuote_iff : isBareQuote line ↔ ∃ bs, line = '>' :: bs ∧ isBlankLine bs := by
  constructor
  · intro h
    unfold isBareQuote at h
    split at h
    · exact ⟨_, rfl, h⟩
    · cases h
  · rintro ⟨bs, rfl, h⟩
    exact h

/-- The first line that is not blank. -/
def firstDark (ls : Lines) : List Char := (ls.find? fun l => !isBlankLine l).getD []

theorem calloutMark?_belowFirst (ls : Lines) :
    calloutMark? ('>' :: belowFirst ls) = calloutMark? ('>' :: joined ls) := by
  cases ls with
  | nil => rfl
  | cons l ls => exact @calloutMark?_blank ['\n'] (by decide) _

/-- A mark in lines is read off the first of them that is not blank. -/
theorem calloutMark?_firstDark (ls : Lines) : (calloutMark? ('>' :: joined ls)).map (·.1) =
    (calloutMark? ('>' :: firstDark ls)).map (·.1) := by
  induction ls with
  | nil => rfl
  | cons l ls ih =>
    rw [joined_cons]
    by_cases hblank : isBlankLine l
    · have hfirst : firstDark (l :: ls) = firstDark ls := by simp [firstDark, hblank]
      rw [calloutMark?_blank hblank, calloutMark?_belowFirst, hfirst, ih]
    · have hfirst : firstDark (l :: ls) = l := by simp [firstDark, hblank]
      rw [calloutMark?_append hblank (breaks_belowFirst ls), hfirst, Option.map_map]
      rfl

theorem calloutMarksFrom_bare (hblank : isBlankLine cs) (hbreak : '\n' ∉ '>' :: cs)
    (ls : Lines) :
    calloutMarksFrom true (joined (('>' :: cs) :: ls)) =
      ((calloutMark? ('>' :: joined ls)).map (·.1)).toList ++ calloutMarksFrom true (joined ls) := by
  have hmark : calloutMark? ('>' :: cs ++ belowFirst ls) = calloutMark? ('>' :: joined ls) := by
    rw [List.cons_append, calloutMark?_blank hblank, calloutMark?_belowFirst]
  rw [joined_cons]
  cases hfound : calloutMark? ('>' :: joined ls) with
  | none => exact calloutMarksFrom_passedLine hbreak (hmark.trans hfound)
  | some found =>
    obtain ⟨front, hfront, hquiet⟩ := exists_of_calloutMark? hfound
    have hrest := calloutMarksFrom_bracket hquiet true found.2
    rw [← hfront] at hrest
    rw [calloutMarksFrom_found (hmark.trans hfound), hrest]
    rfl

theorem calloutMarksFrom_quote (hdark : ¬isBlankLine cs) (hbreak : '\n' ∉ '>' :: cs)
    (ls : Lines) :
    calloutMarksFrom true (joined (('>' :: cs) :: ls)) =
      ((calloutMark? ('>' :: cs)).map (·.1)).toList ++ calloutMarksFrom true (joined ls) := by
  have hmark := calloutMark?_append hdark (breaks_belowFirst ls)
  rw [joined_cons]
  cases hfound : calloutMark? ('>' :: cs) with
  | none =>
    rw [hfound] at hmark
    exact calloutMarksFrom_passedLine hbreak hmark
  | some found =>
    obtain ⟨front, hfront, -⟩ := exists_of_calloutMark? hfound
    have hbehind : '\n' ∉ found.2 := fun hmem => hbreak (by rw [hfront]; simp [hmem])
    rw [hfound] at hmark
    rw [List.cons_append, calloutMarksFrom_found hmark, calloutMarksFrom_inLine hbehind]
    rfl

theorem calloutMarksFrom_unquoted (h : ∀ inner, line ≠ '>' :: inner) (hbreak : '\n' ∉ line)
    (ls : Lines) :
    calloutMarksFrom true (joined (line :: ls)) = calloutMarksFrom true (joined ls) := by
  rw [joined_cons]
  refine calloutMarksFrom_passedLine hbreak (calloutMark?_of_ne fun inner heq => ?_)
  cases line with
  | nil => cases breaks_belowFirst ls '>' (by rw [← List.nil_append (belowFirst ls), heq]; rfl)
  | cons c line =>
    cases heq
    exact h line rfl

/-- The line that a mark on the first line is read off. -/
def readLine (line : List Char) (ls : Lines) : List Char :=
  if isBareQuote line then '>' :: firstDark ls else line

/-- Line by line there is one mark or none. -/
theorem calloutMarksFrom_cons (hbreak : '\n' ∉ line) (ls : Lines) :
    calloutMarksFrom true (joined (line :: ls)) =
      ((calloutMark? (readLine line ls)).map (·.1)).toList ++ calloutMarksFrom true (joined ls) := by
  by_cases hbare : isBareQuote line
  · rw [readLine, if_pos hbare, ← calloutMark?_firstDark]
    obtain ⟨bs, rfl, hblank⟩ := isBareQuote_iff.1 hbare
    exact calloutMarksFrom_bare hblank hbreak ls
  · rw [readLine, if_neg hbare]
    by_cases hquote : ∃ inner, line = '>' :: inner
    · obtain ⟨inner, rfl⟩ := hquote
      exact calloutMarksFrom_quote hbare hbreak ls
    · rw [calloutMarksFrom_unquoted (not_exists.1 hquote) hbreak,
        calloutMark?_of_ne (not_exists.1 hquote)]
      rfl

/-! ## What is told of a text -/

/-- The type of a mark, and whether it stands on one line. -/
structure CalloutMark where
  type : String
  whole : Bool

/-- The mark that begins on a line above others. -/
def mark? (line : List Char) (ls : Lines) : Option CalloutMark :=
  (header? (readLine line ls)).map fun (type, _) => ⟨type, !isBareQuote line⟩

/-- The marks of a text by its lines. -/
def marks : Lines → List CalloutMark
  | [] => []
  | l :: ls => (mark? l ls).toList ++ marks ls

/-- The types of the marks that stand on one line. -/
def headerTypes (ms : List CalloutMark) : List String := (ms.filter (·.whole)).map (·.type)

def typeText (type : List Char) : String := String.ofList (Text.upper type)

theorem map_fst_header? (line : List Char) :
    (header? line).map (·.1) = (calloutMark? line).map (typeText ·.1) := by
  rw [header?, Option.map_map]
  rfl

theorem header?_of_isBareQuote (h : isBareQuote line) : header? line = none := by
  obtain ⟨bs, rfl, hblank⟩ := isBareQuote_iff.1 h
  have hmark := calloutMark?_blank hblank []
  rw [List.append_nil] at hmark
  rw [header?, hmark]
  rfl

theorem map_type_mark? (line : List Char) (ls : Lines) :
    (mark? line ls).map (·.type) = (calloutMark? (readLine line ls)).map (typeText ·.1) := by
  rw [← map_fst_header?, mark?, Option.map_map]
  rfl

/-- A header is a mark on one line. -/
theorem filter_mark? (line : List Char) (ls : Lines) :
    ((mark? line ls).filter (·.whole)).map (·.type) = (header? line).map (·.1) := by
  by_cases hbare : isBareQuote line
  · rw [header?_of_isBareQuote hbare, mark?]
    cases header? (readLine line ls) <;> simp [hbare]
  · rw [mark?, readLine, if_neg hbare]
    cases header? line <;> simp [hbare]

/-- The types in a text are those of the marks on its lines. -/
theorem map_calloutMarksFrom (h : ∀ l ∈ ls, '\n' ∉ l) :
    (calloutMarksFrom true (joined ls)).map typeText = (marks ls).map (·.type) := by
  induction ls with
  | nil =>
    rw [joined, List.intercalate_nil, calloutMarksFrom_nil]
    rfl
  | cons line ls ih =>
    obtain ⟨hline, hls⟩ := List.forall_mem_cons.1 h
    rw [marks, calloutMarksFrom_cons hline, List.map_append, List.map_append, ih hls,
      ← Option.toList_map, ← Option.toList_map, map_type_mark?, Option.map_map]
    rfl

theorem calloutTypes_eq (content : String) : calloutTypes content =
    ((marks (Text.lines content.toList)).map (·.type)).eraseDups := by
  have hbreak : ∀ l ∈ Text.lines content.toList, '\n' ∉ l :=
    fun l hl => break_not_mem_of_mem_lines hl
  rw [← map_calloutMarksFrom hbreak, joined_lines]
  rfl

theorem map_type_calloutsIn (ls : Lines) :
    (calloutsIn ls).map (·.type) = (ls.filterMap header?).map (·.1) := by
  induction ls using calloutsIn.induct with
  | case1 =>
    rw [calloutsIn]
    rfl
  | case2 line rest h ih => rw [calloutsIn, h, List.filterMap_cons, h, ih]
  | case3 line rest type title h ih =>
    have hinside : (rest.takeWhile continues).filterMap header? = [] := by
      rw [List.filterMap_eq_nil_iff]
      intro l hl
      have hcontinues := List.mem_takeWhile_imp hl
      exact Option.isNone_iff_eq_none.1 (Bool.and_eq_true_iff.1 hcontinues).2
    have hrest : rest.filterMap header? = (rest.dropWhile continues).filterMap header? := by
      rw [← List.nil_append (List.filterMap _ (rest.dropWhile continues)), ← hinside,
        ← List.filterMap_append, List.takeWhile_append_dropWhile]
    rw [calloutsIn, h, List.filterMap_cons, h, hrest, List.map_cons, List.map_cons, ih]

/-- Callouts are opened by the marks that stand on one line. -/
theorem map_type_callouts (text : String) :
    (callouts text).map (·.type) = headerTypes (marks (Text.lines text.toList)) := by
  rw [callouts, map_type_calloutsIn]
  generalize Text.lines text.toList = ls
  induction ls with
  | nil => rfl
  | cons line ls ih =>
    rw [headerTypes] at ih ⊢
    rw [marks, List.filter_append, List.map_append, ← ih, ← Option.toList_filter,
      ← Option.toList_map, filter_mark?, List.filterMap_cons]
    cases header? line <;> rfl

/-! ## Where both agree -/

section Unseen

variable {seen types : List String} {t : String}

/-- The types that were not seen before, in order of first appearance. -/
def unseen (seen types : List String) : List String := (types.filter (· ∉ seen)).eraseDups

theorem unseen_nil (types : List String) : unseen [] types = types.eraseDups := by
  rw [unseen, List.filter_eq_self.2 (by simp)]

theorem unseen_of_mem (h : t ∈ seen) (types : List String) :
    unseen (seen ++ [t]) types = unseen seen types := by
  rw [unseen, unseen]
  congr 2
  funext s
  simp only [List.mem_append, List.mem_singleton, decide_eq_decide]
  grind

theorem unseen_cons_of_mem (h : t ∈ seen) (types : List String) :
    unseen seen (t :: types) = unseen seen types := by
  rw [unseen, List.filter_cons_of_neg (by simpa using h), unseen]

theorem unseen_eq_cons_iff {rest : List String} : unseen seen types = t :: rest ↔
    types.find? (· ∉ seen) = some t ∧ rest = unseen (seen ++ [t]) types := by
  have hfilter : types.filter (· ∉ seen ++ [t]) =
      (types.filter (· ∉ seen)).filter fun s => !s == t := by
    rw [List.filter_filter]
    congr 1
    funext s
    rw [Bool.eq_iff_iff]
    simp [and_comm]
  rw [unseen, unseen, hfilter, ← List.head?_filter]
  cases types.filter (· ∉ seen) with
  | nil => simp
  | cons s others =>
    rw [List.eraseDups_cons, List.cons.injEq, List.head?_cons, Option.some_inj]
    refine and_congr_right fun hs => ?_
    subst hs
    rw [List.filter_cons_of_neg (by simp), eq_comm]

theorem unseen_cons_of_notMem (h : t ∉ seen) (types : List String) :
    unseen seen (t :: types) = t :: unseen (seen ++ [t]) types := by
  rw [unseen_eq_cons_iff, unseen_cons_of_mem (by simp)]
  exact ⟨List.find?_cons_of_pos (by simpa using h), rfl⟩

end Unseen

/-- A type was seen, or the next callout of an unseen type below has it. -/
def Due (seen : List String) (t : String) (below : List CalloutMark) : Prop :=
  t ∈ seen ∨ (headerTypes below).find? (· ∉ seen) = some t

theorem forall_broken_cons {P : List CalloutMark → String → List CalloutMark → Prop}
    {m : CalloutMark} {ms : List CalloutMark} :
    (∀ above t below, m :: ms = above ++ ⟨t, false⟩ :: below → P above t below) ↔
      (m.whole = false → P [] m.type ms) ∧
        ∀ above t below, ms = above ++ ⟨t, false⟩ :: below → P (m :: above) t below := by
  constructor
  · intro h
    refine ⟨fun hm => h [] m.type ms ?_, fun above t below hms => h (m :: above) t below ?_⟩
    · rw [← hm]
      rfl
    · rw [hms]
      rfl
  · rintro ⟨hfirst, hrest⟩ above t below heq
    cases above with
    | nil =>
      cases heq
      exact hfirst rfl
    | cons m' above =>
      cases heq
      exact hrest above t below rfl

/-- Marks and their headers show the same new types exactly if every other mark is due. -/
theorem unseen_eq_iff (seen : List String) (ms : List CalloutMark) :
    unseen seen (ms.map (·.type)) = unseen seen (headerTypes ms) ↔
      ∀ above t below, ms = above ++ ⟨t, false⟩ :: below →
        Due (seen ++ above.map (·.type)) t below := by
  -- From the first mark on its type is one that was seen, whether a header shows it or not.
  induction ms generalizing seen with
  | nil => simp [headerTypes]
  | cons m ms ih =>
    obtain ⟨t, whole⟩ := m
    have hrest := ih (seen ++ [t])
    simp only [List.append_assoc, List.singleton_append] at hrest
    rw [forall_broken_cons]
    simp only [List.map_nil, List.append_nil, List.map_cons]
    rw [← hrest]
    by_cases ht : t ∈ seen
    · have hheaders :
          unseen seen (headerTypes (⟨t, whole⟩ :: ms)) = unseen seen (headerTypes ms) := by
        cases whole with
        | false => rfl
        | true => exact unseen_cons_of_mem ht _
      rw [hheaders, unseen_cons_of_mem ht, unseen_of_mem ht, unseen_of_mem ht]
      exact (and_iff_right fun _ => .inl ht).symm
    · rw [unseen_cons_of_notMem ht]
      cases whole with
      | true =>
        have hheaders : unseen seen (headerTypes (⟨t, true⟩ :: ms)) =
            t :: unseen (seen ++ [t]) (headerTypes ms) := unseen_cons_of_notMem ht _
        rw [hheaders, List.cons_inj_right]
        exact (and_iff_right nofun).symm
      | false =>
        have hheaders : headerTypes (⟨t, false⟩ :: ms) = headerTypes ms := rfl
        rw [hheaders, eq_comm, unseen_eq_cons_iff, Due, or_iff_right ht]
        exact and_congr_left' ⟨fun h _ => h, fun h => h rfl⟩

theorem callouts_eq_nil_iff (text : String) :
    callouts text = [] ↔ ∀ m ∈ marks (Text.lines text.toList), ¬m.whole := by
  rw [← List.map_eq_nil_iff (f := Callout.type), map_type_callouts, headerTypes,
    List.map_eq_nil_iff, List.filter_eq_nil_iff]

theorem hasCallouts_iff (content : String) (frontMatter : Properties) :
    (detect content frontMatter).hasCallouts ↔ marks (Text.lines content.toList) ≠ [] := by
  have htypes : (detect content frontMatter).calloutTypes =
      ((marks (Text.lines content.toList)).map (·.type)).eraseDups := calloutTypes_eq content
  rw [Summary.hasCallouts, htypes]
  cases marks (Text.lines content.toList) with
  | nil => simp
  | cons m ms => simp [List.eraseDups_cons]

/-- The types that are told of a note are those of the marks in its text. They are the types of its
callouts exactly if every mark that goes over a line end repeats a type from above or else the next
new type of a callout below. -/
theorem calloutTypes_eq_iff (content : String) (frontMatter : Properties) :
    (detect content frontMatter).calloutTypes =
        ((marks (Text.lines content.toList)).map (·.type)).eraseDups ∧
      ((detect content frontMatter).calloutTypes =
          ((callouts content).map (·.type)).eraseDups ↔
        ∀ above t below, marks (Text.lines content.toList) = above ++ ⟨t, false⟩ :: below →
          Due (above.map (·.type)) t below) ∧
      ((detect content frontMatter).hasCallouts ↔
        callouts content ≠ [] ∨ ∃ m ∈ marks (Text.lines content.toList), ¬m.whole) := by
  have htypes : (detect content frontMatter).calloutTypes =
      ((marks (Text.lines content.toList)).map (·.type)).eraseDups := calloutTypes_eq content
  have hcallouts := map_type_callouts content
  refine ⟨htypes, ?_, ?_⟩
  · rw [htypes, hcallouts, ← unseen_nil, ← unseen_nil]
    exact unseen_eq_iff [] _
  · rw [hasCallouts_iff, ne_eq (callouts content), callouts_eq_nil_iff]
    cases marks (Text.lines content.toList) with
    | nil => simp
    | cons m ms => cases hm : m.whole <;> simp [hm]

/-- A mark on two lines is told of, but no callout is found. -/
theorem brokenMark_has_no_callout :
    let content := ">\n[!NOTE]"
    (detect content []).calloutTypes = ["NOTE"] ∧ (detect content []).hasCallouts = true ∧
      callouts content = [] := by
  decide +kernel

end MarkdownVault.Conversation
