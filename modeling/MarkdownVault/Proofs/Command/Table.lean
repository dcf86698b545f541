import Mathlib.Data.List.Forall2
import Mathlib.Algebra.Order.BigOperators.Group.List
import Mathlib.Algebra.Order.Ring.Nat
import MarkdownVault.Command.Table
import MarkdownVault.Proofs.Text.LetterCase

/-!
# When the lines of a table agree

The rule and the rows of a table are laid out in the same places. The heading is laid out for the
names as they are given but shows them in capitals, which may be longer: it agrees with the other
lines exactly if no name in capitals is longer than its column is wide.
-/

namespace MarkdownVault.Table

/-! ## Cells -/

theorem length_shorten_le {limit : Int} (hlimit : 3 ≤ limit) (s : String) :
    (shorten limit s).length ≤ limit := by
  rw [shorten]
  split
  case isTrue hlong =>
    have hdots : "...".length = 3 := rfl
    have hcut : (cutAt (limit - 3) s).length ≤ (limit - 3).natAbs := by
      rw [cutAt, if_neg (by omega), takeChars, ← String.length_toList, toList_mapChars]
      exact List.length_take_le _ _
    rw [String.length_append, hdots]
    omega
  case isFalse hshort => exact Int.not_lt.1 hshort

variable {c : Column} {cs : List Column} {row : Properties} {rows : List Properties}

/-- What a row holds for a column, as a text that is not cut. -/
def Column.content (c : Column) (row : Properties) : String :=
  ((row.lookup c.name).map cellText).getD ""

theorem Column.cell_eq (c : Column) (row : Properties) :
    c.cell row = shorten c.limit (c.content row) := rfl

theorem Column.length_cell_le (h : 3 ≤ c.limit) (row : Properties) :
    (c.cell row).length ≤ c.limit := length_shorten_le h _

theorem foldl_max_le_iff {α : Type} {f : α → Nat} {xs : List α} {m n : Nat} :
    xs.foldl (fun w x => max w (f x)) m ≤ n ↔ m ≤ n ∧ ∀ x ∈ xs, f x ≤ n := by
  induction xs generalizing m with
  | nil => simp
  | cons x xs ih => rw [List.foldl_cons, ih, max_le_iff, List.forall_mem_cons, and_assoc]

/-- A column is as wide as its name or its widest cell. -/
theorem Column.width_le_iff {n : Nat} :
    c.width rows ≤ n ↔ c.name.length ≤ n ∧ ∀ row ∈ rows, (c.cell row).length ≤ n :=
  foldl_max_le_iff

theorem Column.length_cell_le_width (h : row ∈ rows) : (c.cell row).length ≤ c.width rows :=
  (Column.width_le_iff.1 le_rfl).2 row h

theorem toList_padEnd (width : Nat) (s : String) :
    (padEnd width s).toList = s.toList ++ List.replicate (width - s.length) ' ' := by
  rw [padEnd, String.toList_append, String.toList_ofList]

theorem length_padEnd (width : Nat) (s : String) :
    (padEnd width s).length = max width s.length := by
  rw [← String.length_toList, toList_padEnd, List.length_append, List.length_replicate,
    String.length_toList]
  omega

/-! ## Places -/

/-- A stretch of a line. -/
structure Place where
  start : Nat
  width : Nat

namespace Place

def stop (p : Place) : Nat := p.start + p.width

def Has (p : Place) (i : Nat) : Prop := p.start ≤ i ∧ i < p.stop

/-- What stands in a place. -/
def cut (p : Place) (line : List Char) : List Char := (line.drop p.start).take p.width

end Place

/-- A line shows texts in places: blanks fill the places up, and there is nothing else on it. -/
structure Shows (places : List Place) (texts : List String) (l : List Char) : Prop where
  within : List.Forall₂
    (fun p s => s.length ≤ p.width ∧ p.cut l = (padEnd p.width s).toList) places texts
  between : ∀ i, (∀ p ∈ places, ¬p.Has i) → ∀ c ∈ l[i]?, c = ' '

/-- Places of the given widths, two characters apart. -/
def placesFrom (start : Nat) : List Nat → List Place
  | [] => []
  | width :: widths => ⟨start, width⟩ :: placesFrom (start + width + 2) widths

theorem start_le_of_mem_placesFrom {start : Nat} {widths : List Nat} {p : Place}
    (h : p ∈ placesFrom start widths) : start ≤ p.start := by
  induction widths generalizing start with
  | nil => cases h
  | cons width widths ih =>
    rcases List.mem_cons.1 h with rfl | h
    · exact le_rfl
    · have hle := ih h
      omega

theorem pairwise_placesFrom (start : Nat) (widths : List Nat) :
    (placesFrom start widths).Pairwise fun p q => p.stop < q.start := by
  induction widths generalizing start with
  | nil => exact .nil
  | cons width widths ih =>
    refine List.pairwise_cons.2 ⟨fun q hq => ?_, ih _⟩
    have hle := start_le_of_mem_placesFrom hq
    simp only [Place.stop]
    omega

/-! ## Fields on a line -/

/-- Fields with two blanks between them. -/
def spaced (fields : List (List Char)) : List Char := List.intercalate [' ', ' '] fields

theorem spaced_cons_cons (f g : List Char) (fields : List (List Char)) :
    spaced (f :: g :: fields) = f ++ [' ', ' '] ++ spaced (g :: fields) :=
  List.intercalate_cons_cons

theorem length_spaced {fields : List (List Char)} (h : fields ≠ []) :
    (spaced fields).length + 2 = (fields.map fun f => f.length + 2).sum := by
  induction fields with
  | nil => exact absurd rfl h
  | cons f fields ih =>
    cases fields with
    | nil => simp [spaced]
    | cons g fields =>
      have hrest := ih (List.cons_ne_nil g fields)
      rw [spaced_cons_cons, List.map_cons, List.sum_cons, ← hrest]
      simp only [List.length_append, List.length_cons, List.length_nil]
      omega

theorem length_front (front f : List Char) :
    (front ++ f ++ [' ', ' ']).length = front.length + f.length + 2 := by
  rw [List.length_append, List.length_append]
  rfl

/-- Behind any other characters a field stands in its place. -/
theorem cut_spaced (front : List Char) (fields : List (List Char)) :
    List.Forall₂ (fun p f => p.width = f.length ∧ p.cut (front ++ spaced fields) = f)
      (placesFrom front.length (fields.map List.length)) fields := by
  induction fields generalizing front with
  | nil => exact .nil
  | cons f fields ih =>
    have hfirst (rest : List Char) :
        Place.cut ⟨front.length, f.length⟩ (front ++ (f ++ rest)) = f := by
      rw [Place.cut, List.drop_left, List.take_left]
    cases fields with
    | nil =>
      have hlast := hfirst []
      rw [List.append_nil] at hlast
      exact .cons ⟨rfl, by rwa [spaced, List.intercalate_singleton]⟩ .nil
    | cons g fields =>
      have hrest := ih (front ++ f ++ [' ', ' '])
      rw [length_front] at hrest
      rw [spaced_cons_cons]
      refine .cons ⟨rfl, ?_⟩ ?_
      · rw [List.append_assoc]
        exact hfirst _
      · simpa only [List.append_assoc] using hrest

/-- Between the places there are blanks. -/
theorem blank_spaced (front : List Char) (fields : List (List Char)) {i : Nat}
    (hi : front.length ≤ i)
    (h : ∀ p ∈ placesFrom front.length (fields.map List.length), ¬p.Has i) :
    ∀ c ∈ (front ++ spaced fields)[i]?, c = ' ' := by
  induction fields generalizing front with
  | nil => simp [spaced, hi]
  | cons f fields ih =>
    obtain ⟨hfirst, hrest⟩ := List.forall_mem_cons.1 h
    have hbehind : front.length + f.length ≤ i := by
      simp only [Place.Has, Place.stop] at hfirst
      omega
    cases fields with
    | nil =>
      rw [spaced, List.intercalate_singleton, List.getElem?_eq_none (by simpa using hbehind)]
      simp
    | cons g fields =>
      have htext : front ++ spaced (f :: g :: fields) =
          front ++ f ++ [' ', ' '] ++ spaced (g :: fields) := by
        rw [spaced_cons_cons]
        simp only [List.append_assoc]
      rw [htext]
      by_cases hgap : i < front.length + f.length + 2
      · intro c hc
        rw [List.getElem?_append_left (by rw [length_front]; exact hgap),
          List.getElem?_append_right (by rwa [List.length_append])] at hc
        simpa using List.mem_of_getElem? hc
      · refine ih (front ++ f ++ [' ', ' ']) ?_ ?_
        · rw [length_front]
          omega
        · rwa [length_front]

/-! ## Lines -/

/-- A line that is laid out for the columns of some rows. -/
def laid (cs : List Column) (rows : List Properties) (shown : Column → String) : List Char :=
  (line (cs.map fun c => padEnd (c.width rows) (shown c))).toList

theorem laid_eq (cs : List Column) (rows : List Properties) (shown : Column → String) :
    laid cs rows shown =
      spaced (cs.map fun c => (padEnd (c.width rows) (shown c)).toList) := by
  rw [laid, line, toList_joinWith, List.map_map]
  rfl

/-- The places of the columns. -/
def places (cs : List Column) (rows : List Properties) : List Place :=
  placesFrom 0 (cs.map fun c => c.width rows)

/-- Texts that are not longer than their columns are wide are shown in the places of the columns. -/
theorem shows_laid {shown : Column → String} (h : ∀ c ∈ cs, (shown c).length ≤ c.width rows) :
    Shows (places cs rows) (cs.map shown) (laid cs rows shown) := by
  let fields := cs.map fun c => (padEnd (c.width rows) (shown c)).toList
  have hlength : fields.map List.length = cs.map fun c => c.width rows := by
    rw [List.map_map]
    refine List.map_congr_left fun c hc => ?_
    rw [Function.comp_apply, String.length_toList, length_padEnd, max_eq_left (h c hc)]
  have hcut := cut_spaced [] fields
  have hblank := fun i => @blank_spaced [] fields i (Nat.zero_le i)
  rw [List.nil_append, ← laid_eq, List.length_nil, hlength] at hcut hblank
  refine ⟨?_, hblank⟩
  rw [List.forall₂_map_right_iff] at hcut ⊢
  obtain ⟨hplaces, hall⟩ := List.forall₂_iff_zip.1 hcut
  refine List.forall₂_iff_zip.2 ⟨hplaces, fun {p c} hpc => ?_⟩
  obtain ⟨hwidth, hfield⟩ := hall hpc
  have hfits := h c (List.of_mem_zip hpc).2
  rw [String.length_toList, length_padEnd, max_eq_left hfits] at hwidth
  rw [hwidth]
  exact ⟨hfits, hfield⟩

theorem length_laid (hcolumns : cs ≠ []) (rows : List Properties) (shown : Column → String) :
    (laid cs rows shown).length + 2 =
      (cs.map fun c => max (c.width rows) (shown c).length + 2).sum := by
  rw [laid_eq, length_spaced (by simpa using hcolumns), List.map_map]
  congr 1
  refine List.map_congr_left fun c _ => ?_
  rw [Function.comp_apply, String.length_toList, length_padEnd]

/-- The dashes below the heading. -/
def dashes (width : Nat) : String := String.ofList (List.replicate width '-')

theorem length_dashes (width : Nat) : (dashes width).length = width := by
  rw [dashes, String.length_ofList, List.length_replicate]

theorem padEnd_dashes (width : Nat) : padEnd width (dashes width) = dashes width := by
  rw [padEnd, length_dashes, Nat.sub_self, List.replicate_zero, String.ofList_nil,
    String.append_empty]

/-- The lines of a table below its heading. -/
def below (cs : List Column) (rows : List Properties) : List (List Char) :=
  laid cs rows (fun c => dashes (c.width rows)) ::
    rows.map fun row => laid cs rows (·.cell row)

def heading (cs : List Column) (rows : List Properties) : List Char :=
  laid cs rows fun c => upper c.name

theorem text_eq (hrows : rows ≠ []) : (text cs rows).toList =
    List.intercalate ['\n'] (heading cs rows :: below cs rows) := by
  rw [text, if_neg (by simpa using hrows), toList_joinWith]
  simp only [heading, below, laid, padEnd_dashes, List.map_cons, List.map_map]
  rfl

/-! ## Line feeds -/

theorem mem_spaced {x : Char} {fields : List (List Char)} (h : x ∈ spaced fields) :
    x = ' ' ∨ ∃ f ∈ fields, x ∈ f := by
  induction fields with
  | nil => cases h
  | cons f fields ih =>
    cases fields with
    | nil => exact .inr ⟨f, List.mem_cons_self, by rwa [spaced, List.intercalate_singleton] at h⟩
    | cons g fields =>
      rw [spaced_cons_cons, List.append_assoc, List.mem_append, List.mem_append] at h
      rcases h with h | h | h
      · exact .inr ⟨f, List.mem_cons_self, h⟩
      · exact .inl (by simpa using h)
      · exact (ih h).imp_right fun ⟨f', hf', hx⟩ => ⟨f', List.mem_cons_of_mem f hf', hx⟩

theorem break_notMem_laid {shown : Column → String}
    (h : ∀ c ∈ cs, '\n' ∉ (shown c).toList) : '\n' ∉ laid cs rows shown := by
  rw [laid_eq]
  intro hmem
  rcases mem_spaced hmem with hblank | ⟨f, hf, hbreak⟩
  · cases hblank
  · obtain ⟨c, hc, rfl⟩ := List.mem_map.1 hf
    rw [toList_padEnd, List.mem_append] at hbreak
    rcases hbreak with hbreak | hbreak
    · exact h c hc hbreak
    · cases List.eq_of_mem_replicate hbreak

theorem break_notMem_cell (h : '\n' ∉ (c.content row).toList) : '\n' ∉ (c.cell row).toList := by
  rw [Column.cell_eq, shorten]
  split
  case isTrue =>
    rw [String.toList_append, List.mem_append, cutAt, takeChars, toList_mapChars]
    rintro (hmem | hmem)
    · exact h (List.mem_of_mem_take hmem)
    · revert hmem
      decide
  case isFalse => exact h

/-- The lines of a table are its heading and those below. -/
theorem lines_text (hrows : rows ≠ []) (hnames : ∀ c ∈ cs, '\n' ∉ c.name.toList)
    (hcells : ∀ row ∈ rows, ∀ c ∈ cs, '\n' ∉ (c.content row).toList) :
    Text.lines (text cs rows).toList = heading cs rows :: below cs rows := by
  rw [text_eq hrows, Text.lines]
  refine List.splitOn_intercalate '\n' ?_ (List.cons_ne_nil _ _)
  rw [below, List.forall_mem_cons, List.forall_mem_cons, List.forall_mem_map]
  refine ⟨break_notMem_laid fun c hc => ?_, break_notMem_laid fun c _ => ?_,
    fun row hrow => break_notMem_laid fun c hc => ?_⟩
  · exact fun hbreak => hnames c hc (break_mem_upper.1 hbreak)
  · rw [dashes, String.toList_ofList]
    exact fun hbreak => by cases List.eq_of_mem_replicate hbreak
  · exact break_notMem_cell (hcells row hrow c hc)

/-! ## Lengths -/

/-- The length of a line on which every text fits. -/
def span (cs : List Column) (rows : List Properties) : Nat :=
  (cs.map fun c => c.width rows + 2).sum - 2

theorem length_laid_of_fits {shown : Column → String}
    (h : ∀ c ∈ cs, (shown c).length ≤ c.width rows) :
    (laid cs rows shown).length = span cs rows := by
  by_cases hcolumns : cs = []
  · subst hcolumns
    rfl
  · have hlength := length_laid hcolumns rows shown
    have hwidths : (cs.map fun c => max (c.width rows) (shown c).length + 2) =
        cs.map fun c => c.width rows + 2 :=
      List.map_congr_left fun c hc => by rw [max_eq_left (h c hc)]
    rw [hwidths] at hlength
    rw [span, ← hlength, Nat.add_sub_cancel]

theorem span_lt_length_laid {shown : Column → String} (hc : c ∈ cs)
    (hlong : c.width rows < (shown c).length) :
    span cs rows < (laid cs rows shown).length := by
  have hlength := length_laid (List.ne_nil_of_mem hc) rows shown
  have hlt : (cs.map fun c => c.width rows + 2).sum <
      (cs.map fun c => max (c.width rows) (shown c).length + 2).sum :=
    List.sum_lt_sum _ _ (fun c _ => by omega) ⟨c, hc, by omega⟩
  have htwo : c.width rows + 2 ≤ (cs.map fun c => c.width rows + 2).sum :=
    List.le_sum_of_mem (List.mem_map.2 ⟨c, hc, rfl⟩)
  rw [span]
  omega

theorem length_of_mem_below {l : List Char} (h : l ∈ below cs rows) :
    l.length = span cs rows := by
  rcases List.mem_cons.1 h with rfl | h
  · exact length_laid_of_fits fun c _ => (length_dashes _).le
  · obtain ⟨row, hrow, rfl⟩ := List.mem_map.1 h
    exact length_laid_of_fits fun c _ => Column.length_cell_le_width hrow

/-! ## Agreement -/

/-- Lines below a heading that agree: all are of one length, and each column has a place on all of
them. The first one holds dashes, the others the cells of the rows. -/
structure Agree (cs : List Column) (rows : List Properties) (places : List Place)
    (lines : List (List Char)) : Prop where
  level : ∀ l ∈ lines, ∀ l' ∈ lines, l.length = l'.length
  apart : places.Pairwise fun p q => p.stop < q.start
  shown : ∃ rule body, lines = rule :: body ∧
    Shows places (places.map fun p => dashes p.width) rule ∧
    List.Forall₂ (fun row l => Shows places (cs.map (·.cell row)) l) rows body

theorem map_width_placesFrom (start : Nat) (widths : List Nat) :
    (placesFrom start widths).map Place.width = widths := by
  induction widths generalizing start with
  | nil => rfl
  | cons width widths ih => rw [placesFrom, List.map_cons, ih]

theorem length_heading_iff : (heading cs rows).length = span cs rows ↔
    ∀ c ∈ cs, (upper c.name).length ≤ c.width rows := by
  constructor
  · intro h c hc
    apply Nat.not_lt.1
    intro hlong
    have hlt : span cs rows < (heading cs rows).length := span_lt_length_laid hc hlong
    omega
  · exact length_laid_of_fits

theorem level_iff : (∀ l ∈ below cs rows, (heading cs rows).length = l.length) ↔
    ∀ c ∈ cs, (upper c.name).length ≤ c.width rows := by
  rw [← length_heading_iff]
  constructor
  · intro h
    have hrule : laid cs rows (fun c => dashes (c.width rows)) ∈ below cs rows :=
      List.mem_cons_self
    exact (h _ hrule).trans (length_of_mem_below hrule)
  · exact fun h l hl => h.trans (length_of_mem_below hl).symm

theorem agree_below (cs : List Column) (rows : List Properties) :
    Agree cs rows (places cs rows) (below cs rows) where
  level _ hl _ hl' := (length_of_mem_below hl).trans (length_of_mem_below hl').symm
  apart := pairwise_placesFrom _ _
  shown := by
    have hdashes : (places cs rows).map (fun p => dashes p.width) =
        cs.map fun c => dashes (c.width rows) := by
      have hwidths := congrArg (List.map dashes)
        (map_width_placesFrom 0 (cs.map fun c => c.width rows))
      rwa [List.map_map, List.map_map] at hwidths
    refine ⟨_, _, rfl, ?_, ?_⟩
    · rw [hdashes]
      exact shows_laid fun c _ => (length_dashes _).le
    · rw [List.forall₂_map_right_iff]
      exact List.forall₂_same.2 fun row hrow =>
        shows_laid fun c _ => Column.length_cell_le_width hrow

variable {names : List String} {limits : List (String × Int)}

theorem limit_of_mem_columns (hlimits : ∀ l ∈ limits, 3 ≤ l.2) (hc : c ∈ columns names limits) :
    3 ≤ c.limit := by
  obtain ⟨name, -, rfl⟩ := List.mem_map.1 hc
  cases hlookup : limits.lookup name with
  | none =>
    have hstandard : 3 ≤ standardLimit := by decide
    rwa [Option.getD_none]
  | some limit =>
    simpa only [hlookup, Option.getD_some] using hlimits (name, limit) (mem_of_lookup hlookup)

/-- A table has two lines more than rows. Those below the heading agree, and no cell shows more than
its limit. The heading is as long as the other lines exactly if no name in capitals is too long for
its column, and then it shows the names in the places of the columns. -/
theorem text_lines_up_iff (hrows : rows ≠ []) (hlimits : ∀ l ∈ limits, 3 ≤ l.2)
    (hnames : ∀ name ∈ names, '\n' ∉ name.toList)
    (hcells : ∀ row ∈ rows, ∀ c ∈ columns names limits, '\n' ∉ (c.content row).toList) :
    ∃ first others places,
      Text.lines (text (columns names limits) rows).toList = first :: others ∧
      others.length = rows.length + 1 ∧ Agree (columns names limits) rows places others ∧
      (∀ c ∈ columns names limits, ∀ row ∈ rows, (c.cell row).length ≤ c.limit) ∧
      ((∀ l ∈ others, first.length = l.length) ↔
        ∀ c ∈ columns names limits, (upper c.name).length ≤ c.width rows) ∧
      ((∀ c ∈ columns names limits, (upper c.name).length ≤ c.width rows) →
        Shows places ((columns names limits).map (upper ·.name)) first) := by
  have hcolumns : ∀ c ∈ columns names limits, '\n' ∉ c.name.toList := by
    intro c hc
    obtain ⟨name, hname, rfl⟩ := List.mem_map.1 hc
    exact hnames name hname
  refine ⟨_, _, _, lines_text hrows hcolumns hcells, ?_, agree_below _ rows, ?_, level_iff,
    shows_laid⟩
  · rw [below, List.length_cons, List.length_map]
  · exact fun c hc row _ => Column.length_cell_le (limit_of_mem_columns hlimits hc) row

/-- A long path is cut, and both columns keep their places. -/
theorem text_lines_up_iff_cutPath :
    let cs := columns ["path", "tags"] [("path", 10)]
    let rows : List Properties := [[("path", .text "aaaaaaaaaaaaaaaaaaaa"),
      ("tags", .list [.text "x", .text "y"])], [("path", .text "b"), ("tags", .null)]]
    ∃ first others places, Text.lines (text cs rows).toList = first :: others ∧
      Agree cs rows places others ∧ Shows places ["PATH", "TAGS"] first ∧
      ∀ l ∈ others, first.length = l.length := by
  intro cs rows
  obtain ⟨first, others, places, hlines, -, hagree, -, hlevel, hheading⟩ :=
    @text_lines_up_iff rows ["path", "tags"] [("path", 10)] (by simp [rows]) (by decide)
      (by decide) (by decide +kernel)
  have hnames : cs.map (upper ·.name) = ["PATH", "TAGS"] := by decide +kernel
  have hfits : ∀ c ∈ cs, (upper c.name).length ≤ c.width rows := by decide +kernel
  exact ⟨first, others, places, hlines, hagree, hnames ▸ hheading hfits, hlevel.2 hfits⟩

/-- A name with a sharp s is longer in capitals, and its column is as wide as the name. -/
theorem sharp_s_sticks_out :
    let cs := columns ["straße"] []
    let rows : List Properties := [[("straße", .text "Allee")]]
    (∀ row ∈ rows, ∀ c ∈ cs, '\n' ∉ (c.content row).toList) ∧
      text cs rows = "STRASSE\n------\nAllee " ∧
      ¬∀ l ∈ Text.lines (text cs rows).toList, ∀ l' ∈ Text.lines (text cs rows).toList,
        l.length = l'.length := by
  intro cs rows
  have htext : text cs rows = "STRASSE\n------\nAllee " := by decide +kernel
  exact ⟨by decide +kernel, htext, by rw [htext]; decide +kernel⟩

end MarkdownVault.Table
