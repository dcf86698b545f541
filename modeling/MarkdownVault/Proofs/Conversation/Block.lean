import Mathlib.Data.List.Forall2
import MarkdownVault.Proofs.Conversation.Callout

/-!
# Callouts as blocks of lines

The callouts part the lines of a text. Each header has the longest run of quoted lines below it, no
line is used twice, and the lines that are left over only keep the blocks apart: whatever stands in
their place, the callouts stay the same.
-/

namespace MarkdownVault.Conversation

variable {line type title : List Char} {ls above below : Lines}

/-! ## Headers -/

/-- A line that opens a callout: `>`, blanks, a type in brackets, and the title as it is written. -/
def OpensCallout (line type title : List Char) : Prop :=
  ∃ blanks, (∀ c ∈ blanks, Text.isBlank c) ∧ IsName type ∧
    line = '>' :: (blanks ++ '[' :: '!' :: (type ++ ']' :: title))

theorem calloutMark?_eq_some_iff :
    calloutMark? line = some (type, title) ↔ OpensCallout line type title := by
  constructor
  · intro h
    by_cases hquote : ∃ inner, line = '>' :: inner
    · obtain ⟨inner, rfl⟩ := hquote
      rw [calloutMark?_quote, bracketed?_eq_some_iff] at h
      refine ⟨inner.takeWhile Text.isBlank, fun c hc => List.mem_takeWhile_imp hc, h.1, ?_⟩
      rw [← h.2, List.takeWhile_append_dropWhile]
    · rw [calloutMark?_of_ne (not_exists.1 hquote)] at h
      cases h
  · rintro ⟨blanks, hblanks, htype, rfl⟩
    have hdark : Text.isBlank '[' = false := by decide
    rw [calloutMark?_quote, (Text.span_of_stop hblanks hdark _).2]
    exact bracketed?_eq_some_iff.2 ⟨htype, rfl⟩

/-- A line that opens a callout of some type. -/
def IsHeader (line : List Char) : Prop := ∃ type title, OpensCallout line type title

theorem OpensCallout.header? (h : OpensCallout line type title) :
    header? line = some (typeText type, String.ofList (Text.trim title)) := by
  rw [Conversation.header?, calloutMark?_eq_some_iff.2 h]
  rfl

theorem isHeader_iff : IsHeader line ↔ (header? line).isSome := by
  constructor
  · rintro ⟨type, title, h⟩
    rw [h.header?]
    rfl
  · intro h
    rw [header?, Option.isSome_map] at h
    obtain ⟨⟨type, title⟩, hmark⟩ := Option.isSome_iff_exists.1 h
    exact ⟨type, title, calloutMark?_eq_some_iff.1 hmark⟩

instance : DecidablePred IsHeader := fun _ => decidable_of_iff _ isHeader_iff.symm

theorem not_isHeader_iff : ¬IsHeader line ↔ header? line = none := by
  rw [isHeader_iff, Option.not_isSome_iff_eq_none]

/-! ## Quoted lines -/

/-- A quoted line that is no header. -/
def GoesOn (line : List Char) : Prop := line.head? = some '>' ∧ ¬IsHeader line

theorem goesOn_iff : GoesOn line ↔ continues line := by
  rw [GoesOn, not_isHeader_iff, continues, isQuoted, Bool.and_eq_true, beq_iff_eq,
    Option.isNone_iff_eq_none]

/-- A quoted line and the same line without its `>` and the blank behind it, if there is one. -/
inductive Unquotes : List Char → List Char → Prop
  | spaced {c : Char} {cs : List Char} (hblank : Text.isBlank c) : Unquotes ('>' :: c :: cs) cs
  | close {cs : List Char} (hdark : ∀ c ∈ cs.head?, ¬Text.isBlank c) : Unquotes ('>' :: cs) cs

theorem unquotes_iff {shown : List Char} :
    Unquotes line shown ↔ line.head? = some '>' ∧ shown = unquoted line := by
  constructor
  · rintro (hblank | hdark)
    · exact ⟨rfl, by simp [unquoted, hblank]⟩
    · refine ⟨rfl, ?_⟩
      cases shown with
      | nil => rfl
      | cons c cs => simp [unquoted, hdark c rfl]
  · rintro ⟨hhead, rfl⟩
    obtain ⟨cs, rfl⟩ := List.head?_eq_some_iff.1 hhead
    cases cs with
    | nil => exact .close nofun
    | cons c cs =>
      rw [unquoted]
      split
      case isTrue hblank => exact .spaced hblank
      case isFalse hdark =>
        refine .close ?_
        rintro _ ⟨⟩
        exact hdark

theorem forall₂_unquotes_iff {run shown : Lines} (hrun : ∀ l ∈ run, GoesOn l) :
    List.Forall₂ Unquotes run shown ↔ shown = run.map unquoted := by
  induction run generalizing shown with
  | nil => exact List.forall₂_nil_left_iff
  | cons l run ih =>
    obtain ⟨hl, hrest⟩ := List.forall_mem_cons.1 hrun
    simp [List.forall₂_cons_left_iff, unquotes_iff, hl.1, ih hrest]

/-! ## Blocks -/

/-- A header, the quoted lines that belong to it, and the lines behind that belong to no callout. -/
structure Block where
  header : List Char
  run : Lines
  gap : Lines

namespace Block

/-- The lines of the callout. -/
def own (b : Block) : Lines := b.header :: b.run

def lines (b : Block) : Lines := b.own ++ b.gap

structure Proper (b : Block) : Prop where
  header : IsHeader b.header
  run : ∀ l ∈ b.run, GoesOn l
  longest : ∀ l ∈ b.gap.head?, ¬GoesOn l
  gap : ∀ l ∈ b.gap, ¬IsHeader l

/-- The callout of a block: the type in upper case, the title, and the lines without their marks. -/
def Shows (b : Block) (c : Callout) : Prop :=
  ∃ type title shown, OpensCallout b.header type title ∧ List.Forall₂ Unquotes b.run shown ∧
    c = ⟨typeText type, String.ofList (Text.trim title), String.ofList (Text.trim (joined shown))⟩

theorem exists_shows {b : Block} (h : b.Proper) : ∃ c, b.Shows c := by
  obtain ⟨type, title, hopens⟩ := h.header
  exact ⟨_, type, title, _, hopens, (forall₂_unquotes_iff h.run).2 rfl, rfl⟩

theorem exists_forall₂_shows {blocks : List Block} (h : ∀ b ∈ blocks, b.Proper) :
    ∃ cs, List.Forall₂ Shows blocks cs := by
  induction blocks with
  | nil => exact ⟨[], .nil⟩
  | cons b blocks ih =>
    obtain ⟨hb, hrest⟩ := List.forall_mem_cons.1 h
    obtain ⟨c, hc⟩ := exists_shows hb
    obtain ⟨cs, hcs⟩ := ih hrest
    exact ⟨c :: cs, .cons hc hcs⟩

/-- Lines behind the callout do not matter for it. -/
theorem Shows.of_own {b b' : Block} {c : Callout} (h : b.Shows c) (hown : b.own = b'.own) :
    b'.Shows c := by
  obtain ⟨hheader, hrun⟩ := List.cons.inj hown
  rwa [Shows, ← hheader, ← hrun]

theorem forall₂_shows_of_own {blocks blocks' : List Block} {cs : List Callout}
    (hown : blocks.map own = blocks'.map own) (h : List.Forall₂ Shows blocks cs) :
    List.Forall₂ Shows blocks' cs := by
  induction h generalizing blocks' with
  | nil =>
    rw [List.map_eq_nil_iff.1 hown.symm]
    exact .nil
  | cons hc _ ih =>
    obtain ⟨b', others, rfl, hb, hothers⟩ := List.map_eq_cons_iff.1 hown.symm
    exact .cons (hc.of_own hb.symm) (ih hothers.symm)

end Block

/-- Lines are parted into blocks and the lines above the first of them. -/
structure Parts (ls above : Lines) (blocks : List Block) : Prop where
  lines : ls = above ++ (blocks.map Block.lines).flatten
  above : ∀ l ∈ above, ¬IsHeader l
  proper : ∀ b ∈ blocks, b.Proper

variable {blocks : List Block}

theorem head_flatten_lines (h : ∀ b ∈ blocks, b.Proper) :
    ∀ l ∈ (blocks.map Block.lines).flatten.head?, IsHeader l := by
  cases blocks with
  | nil => nofun
  | cons b blocks =>
    rintro l ⟨⟩
    exact (h b List.mem_cons_self).header

/-- The run of a header ends where the block ends or a line in it does not go on. -/
theorem not_continues_behind {b : Block} (h : b.Proper) (hbelow : ∀ l ∈ below.head?, IsHeader l) :
    ∀ l ∈ (b.gap ++ below).head?, continues l = false := by
  intro l hl
  rw [← Bool.not_eq_true, ← goesOn_iff]
  rcases b with ⟨header, run, _ | ⟨m, gap⟩⟩
  · exact fun hgoes => hgoes.2 (hbelow l hl)
  · exact h.longest l hl

/-! ## The scan of the lines -/

theorem calloutsIn_cons_of_not_isHeader (h : ¬IsHeader line) (ls : Lines) :
    calloutsIn (line :: ls) = calloutsIn ls := by
  rw [calloutsIn, not_isHeader_iff.1 h]

theorem calloutsIn_append (h : ∀ l ∈ above, ¬IsHeader l) (ls : Lines) :
    calloutsIn (above ++ ls) = calloutsIn ls := by
  induction above with
  | nil => rfl
  | cons l above ih =>
    obtain ⟨hl, habove⟩ := List.forall_mem_cons.1 h
    rw [List.cons_append, calloutsIn_cons_of_not_isHeader hl, ih habove]

/-- A block has one callout, and below it the scan goes on. -/
theorem calloutsIn_block {b : Block} {c : Callout} (hb : b.Proper) (hc : b.Shows c)
    (hbelow : ∀ l ∈ below.head?, IsHeader l) :
    calloutsIn (b.lines ++ below) = c :: calloutsIn below := by
  obtain ⟨type, title, shown, hopens, hshown, rfl⟩ := hc
  obtain ⟨htake, hdrop⟩ := Text.span_of_ends (fun l hl => goesOn_iff.1 (hb.run l hl))
    (not_continues_behind hb hbelow)
  obtain rfl := (forall₂_unquotes_iff hb.run).1 hshown
  rw [Block.lines, Block.own, List.cons_append, List.cons_append, List.append_assoc, calloutsIn,
    hopens.header?]
  dsimp only
  rw [htake, hdrop, calloutsIn_append hb.gap]
  rfl

theorem calloutsIn_blocks {cs : List Callout} (h : ∀ b ∈ blocks, b.Proper)
    (hshows : List.Forall₂ Block.Shows blocks cs) :
    calloutsIn (blocks.map Block.lines).flatten = cs := by
  induction hshows with
  | nil => rw [List.map_nil, List.flatten_nil, calloutsIn]
  | cons hc _ ih =>
    obtain ⟨hb, hrest⟩ := List.forall_mem_cons.1 h
    rw [List.map_cons, List.flatten_cons, calloutsIn_block hb hc (head_flatten_lines hrest),
      ih hrest]

theorem Parts.calloutsIn_eq {cs : List Callout} (h : Parts ls above blocks)
    (hshows : List.Forall₂ Block.Shows blocks cs) : calloutsIn ls = cs := by
  rw [h.lines, calloutsIn_append h.above, calloutsIn_blocks h.proper hshows]

/-! ## The blocks of a text -/

/-- Whatever the order of headers, quoted lines and others is, they are parted into blocks. -/
theorem exists_parts (ls : Lines) : ∃ above blocks, Parts ls above blocks := by
  induction ls using calloutsIn.induct with
  | case1 => exact ⟨[], [], rfl, by simp, by simp⟩
  | case2 line rest hline ih =>
    obtain ⟨above, blocks, rfl, habove, hproper⟩ := ih
    exact ⟨line :: above, blocks, rfl,
      List.forall_mem_cons.2 ⟨not_isHeader_iff.2 hline, habove⟩, hproper⟩
  | case3 line rest type title hline ih =>
    obtain ⟨gap, blocks, hrest, hgap, hproper⟩ := ih
    refine ⟨[], ⟨line, rest.takeWhile continues, gap⟩ :: blocks, ?_, by simp,
      List.forall_mem_cons.2 ⟨⟨?_, ?_, ?_, hgap⟩, hproper⟩⟩
    · rw [List.map_cons, List.flatten_cons, Block.lines, Block.own, List.nil_append,
        List.append_assoc, ← hrest, List.cons_append, List.takeWhile_append_dropWhile]
    · rw [isHeader_iff, hline]
      rfl
    · exact fun l hl => goesOn_iff.2 (List.mem_takeWhile_imp hl)
    · intro l hl hgoes
      have hstop : ∀ l ∈ (rest.dropWhile continues).head?, continues l = false :=
        Text.head?_dropWhile rest
      rw [hrest] at hstop
      rw [goesOn_iff, hstop l (List.mem_head?_append_of_mem_head? hl)] at hgoes
      cases hgoes

theorem filter_isHeader_of_not (h : ∀ l ∈ ls, ¬IsHeader l) : ls.filter (IsHeader ·) = [] :=
  List.filter_eq_nil_iff.2 fun l hl => by simpa using h l hl

theorem Block.Proper.filter_lines {b : Block} (h : b.Proper) :
    b.lines.filter (IsHeader ·) = [b.header] := by
  have hrun : b.run.filter (IsHeader ·) = [] := filter_isHeader_of_not fun l hl => (h.run l hl).2
  rw [Block.lines, Block.own, List.filter_append, List.filter_cons, hrun,
    filter_isHeader_of_not h.gap, if_pos (decide_eq_true h.header), List.append_nil]

theorem filter_flatten_lines (h : ∀ b ∈ blocks, b.Proper) :
    (blocks.map Block.lines).flatten.filter (IsHeader ·) = blocks.map Block.header := by
  induction blocks with
  | nil => rfl
  | cons b blocks ih =>
    obtain ⟨hb, hrest⟩ := List.forall_mem_cons.1 h
    rw [List.map_cons, List.map_cons, List.flatten_cons, List.filter_append, hb.filter_lines,
      ih hrest, List.singleton_append]

/-- There is a block for each header. -/
theorem Parts.map_header (h : Parts ls above blocks) :
    blocks.map Block.header = ls.filter (IsHeader ·) := by
  rw [h.lines, List.filter_append, filter_isHeader_of_not h.above, filter_flatten_lines h.proper,
    List.nil_append]

/-- The lines of a text are parted into blocks, one for each header and in their order. The callouts
are those of the blocks: the lines below a header as far as they go on, without their marks. Texts
with the same headers and the same lines below them have the same callouts, whatever else stands
between the blocks. -/
theorem callouts_partition (text : String) : ∃ above blocks,
    Parts (Text.lines text.toList) above blocks ∧
    blocks.map Block.header = (Text.lines text.toList).filter (IsHeader ·) ∧
    List.Forall₂ Block.Shows blocks (callouts text) ∧
    ∀ (other : String) (above' : Lines) (blocks' : List Block),
      Parts (Text.lines other.toList) above' blocks' →
      blocks'.map Block.own = blocks.map Block.own → callouts other = callouts text := by
  obtain ⟨above, blocks, hparts⟩ := exists_parts (Text.lines text.toList)
  obtain ⟨cs, hshows⟩ := Block.exists_forall₂_shows hparts.proper
  have hcallouts : callouts text = cs := hparts.calloutsIn_eq hshows
  rw [hcallouts]
  refine ⟨above, blocks, hparts, hparts.map_header, hshows, ?_⟩
  intro other above' blocks' hother hown
  exact hother.calloutsIn_eq (Block.forall₂_shows_of_own hown.symm hshows)

end MarkdownVault.Conversation
