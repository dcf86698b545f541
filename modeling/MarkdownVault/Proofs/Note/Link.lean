import MarkdownVault.Note.Link
import MarkdownVault.Proofs.Text.Cutting

/-!
# Links and embeds between other text

A body is a row of fillers, links and embeds. Each of the two scans reads off the targets of its own
kind, and nothing else: of what it has passed, all that matters to it is whether a `!` stands last.
-/

namespace MarkdownVault.Note

/-! ## Bodies in pieces -/

/-- What is written between double brackets. -/
structure Reference where
  target : String
  label : Option String
  target_ne : target ≠ ""
  target_plain : ∀ c ∈ target.toList, c ∉ ['[', ']', '|']
  label_plain : ∀ l ∈ label, l ≠ "" ∧ ∀ c ∈ l.toList, c ∉ ['[', ']']

def Reference.text (r : Reference) : String :=
  match r.label with
  | none => "[[" ++ r.target ++ "]]"
  | some label => "[[" ++ r.target ++ "|" ++ label ++ "]]"

/-- A text without opening brackets; it may hold closing ones, bars and line feeds. -/
structure Filler where
  text : String
  plain : '[' ∉ text.toList

inductive Piece where
  | filler (f : Filler)
  | link (r : Reference)
  | embed (r : Reference)

namespace Piece

def text : Piece → String
  | filler f => f.text
  | link r => r.text
  | embed r => "!" ++ r.text

def linked? : Piece → Option String
  | link r => some r.target
  | _ => none

def embedded? : Piece → Option String
  | embed r => some r.target
  | _ => none

end Piece

/-- The text of the pieces one behind the other. -/
def written (pieces : List Piece) : String := String.join (pieces.map Piece.text)

/-- Whether a `!` stands at the end. -/
def marked (front : List Char) : Bool := front.getLast? == some '!'

/-- No `!` at the end of a filler stands before a link; an empty filler between them does not part
them. -/
def Unmarked (pieces : List Piece) : Prop :=
  ∀ before r after, pieces = before ++ .link r :: after → ¬marked (written before).toList

variable {b : Bool} {c : Char} {cs front xs : List Char}

theorem toList_written_cons (p : Piece) (pieces : List Piece) :
    (written (p :: pieces)).toList = p.text.toList ++ (written pieces).toList := by
  simp [written]

@[simp] theorem marked_concat (front : List Char) (c : Char) :
    marked (front ++ [c]) = (c == '!') := by
  simp [marked]

/-! ## One reference -/

namespace Reference

variable (r : Reference)

/-- What stands between the brackets. -/
def inner : List Char :=
  match r.label with
  | none => r.target.toList
  | some label => r.target.toList ++ '|' :: label.toList

theorem toList_text : r.text.toList = '[' :: '[' :: (r.inner ++ [']', ']']) := by
  unfold text inner
  split <;> simp

theorem notMem_inner : '[' ∉ r.inner := by
  have htarget : '[' ∉ r.target.toList := fun h => r.target_plain _ h (by decide)
  unfold inner
  split
  case h_1 => exact htarget
  case h_2 label hlabel =>
    have hplain : '[' ∉ label.toList := fun h => (r.label_plain label hlabel).2 _ h (by decide)
    simpa using ⟨htarget, hplain⟩

theorem exists_inner_eq_cons : ∃ c cs, c ≠ '[' ∧ r.inner = c :: cs := by
  cases hinner : r.inner with
  | nil =>
    have htarget : r.target.toList = [] := by
      unfold inner at hinner
      split at hinner
      · exact hinner
      · simp at hinner
    exact absurd (String.toList_eq_nil_iff.1 htarget) r.target_ne
  | cons c cs =>
    refine ⟨c, cs, ?_, rfl⟩
    rintro rfl
    exact r.notMem_inner (hinner ▸ List.mem_cons_self)

/-- A reference is read up to its own closing brackets. -/
theorem bracketed?_inner (rest : List Char) :
    bracketed? (r.inner ++ ']' :: ']' :: rest) = some (r.target.toList, rest) := by
  have hpart : ∀ c ∈ r.target.toList, isTargetPart c := by
    intro c hc
    have hplain : c ≠ '[' ∧ c ≠ ']' ∧ c ≠ '|' := by simpa using r.target_plain c hc
    simpa [isTargetPart] using hplain.2
  have hempty : r.target.toList.isEmpty = false := by simpa using r.target_ne
  unfold inner
  split
  case h_1 =>
    have hend : isTargetPart ']' = false := by decide
    obtain ⟨htake, hdrop⟩ := Text.span_of_stop hpart hend (']' :: rest)
    rw [bracketed?, htake, hdrop, hempty, if_neg Bool.false_ne_true]
    rfl
  case h_2 label hlabel =>
    obtain ⟨hne, hplain⟩ := r.label_plain label hlabel
    have hlabelPart : ∀ c ∈ label.toList, c != ']' := by
      intro c hc
      have hne : c ≠ '[' ∧ c ≠ ']' := by simpa using hplain c hc
      exact bne_iff_ne.2 hne.2
    have hend : isTargetPart '|' = false := by decide
    obtain ⟨htake, hdrop⟩ := Text.span_of_stop hpart hend (label.toList ++ ']' :: ']' :: rest)
    have hlabelEmpty : label.toList.isEmpty = false := by simpa using hne
    have hclosing : closingBrackets? (']' :: ']' :: rest) = some rest := rfl
    have hafter : afterTarget? ('|' :: (label.toList ++ ']' :: ']' :: rest)) = some rest := by
      rw [afterTarget?, List.takeWhile_append_of_pos hlabelPart,
        List.dropWhile_append_of_pos hlabelPart]
      simp [hne, hclosing]
    rw [List.append_assoc, List.cons_append, bracketed?, htake, hdrop, hempty,
      if_neg Bool.false_ne_true, hafter]
    rfl

end Reference

/-! ## The scan for links -/

theorem linkTargets_nil (b : Bool) : linkTargets b [] = [] := by rw [linkTargets]

/-- An opening bracket alone starts nothing. -/
theorem linkTargets_cons (h : c = '[' → cs.head? ≠ some '[') :
    linkTargets b (c :: cs) = linkTargets (c == '!') cs := by
  rw [linkTargets.eq_3]
  rintro ds rfl rfl
  exact h rfl rfl

/-- A scan goes over a text without opening brackets. -/
theorem linkTargets_append (h : '[' ∉ xs) (front ys : List Char) :
    linkTargets (marked front) (xs ++ ys) = linkTargets (marked (front ++ xs)) ys := by
  induction xs generalizing front with
  | nil => rw [List.nil_append, List.append_nil]
  | cons c xs ih =>
    obtain ⟨hc, hxs⟩ := List.ne_and_not_mem_of_not_mem_cons h
    rw [List.cons_append, linkTargets_cons (fun heq => absurd heq.symm hc), ← marked_concat front c,
      ih hxs, List.append_assoc, List.singleton_append]

theorem Reference.marked_text (r : Reference) (front : List Char) :
    marked (front ++ r.text.toList) = false := by
  have hend : front ++ r.text.toList = front ++ '[' :: '[' :: (r.inner ++ [']']) ++ [']'] := by
    simp [r.toList_text]
  rw [hend, marked_concat]
  rfl

theorem linkTargets_link (r : Reference) (ys : List Char) :
    linkTargets false (r.text.toList ++ ys) = r.target.toList :: linkTargets false ys := by
  have hbracketed := r.bracketed?_inner ys
  rw [r.toList_text]
  simp only [List.cons_append, List.append_assoc, List.nil_append]
  rw [linkTargets]
  split
  case h_1 heq =>
    rw [if_neg Bool.false_ne_true, hbracketed] at heq
    cases heq
    rfl
  case h_2 heq =>
    rw [if_neg Bool.false_ne_true, hbracketed] at heq
    cases heq

/-- Behind a `!` the brackets are passed like other text. -/
theorem linkTargets_embed (r : Reference) (ys : List Char) :
    linkTargets true (r.text.toList ++ ys) = linkTargets false ys := by
  have hinner : '[' ∉ r.inner ++ [']', ']'] := by simpa using r.notMem_inner
  have hpassed := linkTargets_append hinner ['[', '['] ys
  obtain ⟨c, cs, hc, hcons⟩ := r.exists_inner_eq_cons
  have hsingle : linkTargets false ('[' :: (r.inner ++ [']', ']'] ++ ys)) =
      linkTargets false (r.inner ++ [']', ']'] ++ ys) := by
    apply linkTargets_cons
    simpa [hcons] using hc
  have hmarked := r.marked_text []
  rw [r.toList_text, List.nil_append] at hmarked
  rw [List.cons_append, List.cons_append, List.nil_append, hmarked] at hpassed
  rw [r.toList_text, List.cons_append, List.cons_append, linkTargets]
  split
  case h_1 heq => cases heq
  case h_2 => exact hsingle.trans hpassed

/-- What the scan for links does with one piece. -/
theorem linkTargets_piece (p : Piece) (hp : ∀ r, p = .link r → ¬marked front) (ys : List Char) :
    linkTargets (marked front) (p.text.toList ++ ys) =
      (p.linked?.map String.toList).toList ++ linkTargets (marked (front ++ p.text.toList)) ys := by
  cases p with
  | filler f => exact linkTargets_append f.plain front ys
  | link r =>
    have hfront : marked front = false := by simpa using hp r rfl
    have hpiece : (Piece.link r).text = r.text := rfl
    rw [hfront, hpiece, r.marked_text]
    exact linkTargets_link r ys
  | embed r =>
    have hpiece : (Piece.embed r).text.toList = '!' :: r.text.toList := by simp [Piece.text]
    have hmarked : marked (front ++ '!' :: r.text.toList) = false := by
      rw [List.append_cons, r.marked_text]
    rw [hpiece, hmarked, List.cons_append, linkTargets_cons (by simp)]
    exact linkTargets_embed r ys

/-! ## The scan for embeds -/

/-- The mark that the scan for embeds may still make use of. -/
def pending (front : List Char) : List Char := if marked front then ['!'] else []

theorem embedTargets_nil : embedTargets [] = [] := by rw [embedTargets]

theorem embedTargets_cons (h : c = '!' → ¬['[', '['] <+: cs) :
    embedTargets (c :: cs) = embedTargets cs := by
  rw [embedTargets.eq_3]
  rintro ds rfl rfl
  exact h rfl (by simp)

/-- A mark is of no use before anything but a bracket. -/
theorem embedTargets_pending (h : cs.head? ≠ some '[') :
    embedTargets (pending front ++ cs) = embedTargets cs := by
  unfold pending
  split
  case isTrue =>
    apply embedTargets_cons
    rintro - ⟨ds, rfl⟩
    exact h rfl
  case isFalse => rfl

theorem embedTargets_append (h : '[' ∉ xs) (front ys : List Char) :
    embedTargets (pending front ++ (xs ++ ys)) = embedTargets (pending (front ++ xs) ++ ys) := by
  induction xs generalizing front with
  | nil => rw [List.nil_append, List.append_nil]
  | cons c xs ih =>
    obtain ⟨hc, hxs⟩ := List.ne_and_not_mem_of_not_mem_cons h
    have hfirst : embedTargets (c :: (xs ++ ys)) =
        embedTargets (pending (front ++ [c]) ++ (xs ++ ys)) := by
      rw [pending, marked_concat]
      by_cases hmark : c = '!'
      · rw [hmark]
        rfl
      · rw [embedTargets_cons fun heq => absurd heq hmark, beq_false_of_ne hmark]
        rfl
    have hhead : (c :: (xs ++ ys)).head? ≠ some '[' := fun heq => hc (Option.some.inj heq).symm
    rw [List.cons_append, embedTargets_pending hhead, hfirst, ih hxs, List.append_assoc,
      List.singleton_append]

theorem Reference.pending_text (r : Reference) (front : List Char) :
    pending (front ++ r.text.toList) = [] := by
  rw [pending, r.marked_text, if_neg Bool.false_ne_true]

theorem embedTargets_link (r : Reference) (ys : List Char) :
    embedTargets (r.text.toList ++ ys) = embedTargets ys := by
  have hinner : '[' ∉ r.inner ++ [']', ']'] := by simpa using r.notMem_inner
  have hpassed := embedTargets_append hinner ['[', '['] ys
  have hend := r.pending_text []
  rw [r.toList_text, List.nil_append] at hend
  rw [List.cons_append, List.cons_append, List.nil_append, hend] at hpassed
  rw [r.toList_text, List.cons_append, List.cons_append, embedTargets_cons (by simp),
    embedTargets_cons (by simp)]
  exact hpassed

theorem embedTargets_embed (r : Reference) (ys : List Char) :
    embedTargets ('!' :: (r.text.toList ++ ys)) = r.target.toList :: embedTargets ys := by
  have hbracketed := r.bracketed?_inner ys
  rw [r.toList_text]
  simp only [List.cons_append, List.append_assoc, List.nil_append]
  rw [embedTargets]
  split
  case h_1 heq =>
    cases hbracketed.symm.trans heq
    rfl
  case h_2 heq => cases hbracketed.symm.trans heq

/-- What the scan for embeds does with one piece. -/
theorem embedTargets_piece (p : Piece) (hp : ∀ r, p = .link r → ¬marked front) (ys : List Char) :
    embedTargets (pending front ++ (p.text.toList ++ ys)) =
      (p.embedded?.map String.toList).toList ++
        embedTargets (pending (front ++ p.text.toList) ++ ys) := by
  cases p with
  | filler f => exact embedTargets_append f.plain front ys
  | link r =>
    have hpiece : (Piece.link r).text = r.text := rfl
    rw [pending, if_neg (hp r rfl), hpiece, r.pending_text]
    exact embedTargets_link r ys
  | embed r =>
    have hpiece : (Piece.embed r).text.toList = '!' :: r.text.toList := by simp [Piece.text]
    have hpending : pending (front ++ '!' :: r.text.toList) = [] := by
      rw [List.append_cons, r.pending_text]
    rw [hpiece, hpending, List.cons_append, embedTargets_pending (by simp)]
    exact embedTargets_embed r ys

/-! ## Both scans over a body -/

variable {pieces : List Piece}

/-- Both scans, where `front` has been passed. -/
theorem targets_written (h : ∀ before r after, pieces = before ++ .link r :: after →
      ¬marked (front ++ (written before).toList)) :
    linkTargets (marked front) (written pieces).toList =
        (pieces.filterMap Piece.linked?).map String.toList ∧
      embedTargets (pending front ++ (written pieces).toList) =
        (pieces.filterMap Piece.embedded?).map String.toList := by
  induction pieces generalizing front with
  | nil =>
    have hempty : (written []).toList = [] := rfl
    rw [hempty, linkTargets_nil, embedTargets_pending (by simp), embedTargets_nil]
    exact ⟨rfl, rfl⟩
  | cons p pieces ih =>
    have hfirst : ∀ r, p = .link r → ¬marked front := by
      rintro r rfl
      simpa [written] using h [] r pieces rfl
    have hrest : ∀ before r after, pieces = before ++ .link r :: after →
        ¬marked (front ++ p.text.toList ++ (written before).toList) := by
      rintro before r after rfl
      simpa [toList_written_cons] using h (p :: before) r after rfl
    obtain ⟨hlinks, hembeds⟩ := ih hrest
    rw [toList_written_cons, linkTargets_piece p hfirst, embedTargets_piece p hfirst, hlinks,
      hembeds]
    cases p <;> exact ⟨rfl, rfl⟩

theorem distinctTargets_map_toList (targets : List String) :
    distinctTargets (targets.map String.toList) = (targets.map trim).eraseDups := by
  rw [distinctTargets, List.map_map]
  rfl

/-- The links of a body are the trimmed targets of its links and the embeds those of its embeds,
each once and in order of first appearance. -/
theorem references_of_written (pieces : List Piece) (h : Unmarked pieces) :
    linksOf (written pieces) = ((pieces.filterMap Piece.linked?).map trim).eraseDups ∧
      embedsOf (written pieces) = ((pieces.filterMap Piece.embedded?).map trim).eraseDups := by
  have htargets := @targets_written [] pieces (by simpa [Unmarked] using h)
  obtain ⟨hlinks, hembeds⟩ := htargets
  have hstart : marked [] = false := rfl
  have hpending : pending [] = [] := rfl
  rw [hstart] at hlinks
  rw [hpending, List.nil_append] at hembeds
  rw [linksOf, embedsOf, hlinks, hembeds, distinctTargets_map_toList, distinctTargets_map_toList]
  exact ⟨rfl, rfl⟩

/-- Marks in front of an embed, a bar and a mark in a label, and brackets in a filler. -/
theorem references_of_written_adjoining : ∃ pieces : List Piece, Unmarked pieces ∧
    written pieces = "Hi!!![[ a |x|!]][[a]] ]]|[[b\n#c|!]]![[b]][[a ]]" ∧
      linksOf (written pieces) = ["a", "b\n#c"] ∧ embedsOf (written pieces) = ["a", "b"] := by
  let pieces : List Piece := [
    .filler ⟨"Hi!!", by decide⟩,
    .embed ⟨" a ", some "x|!", by decide, by simp, by simp⟩,
    .link ⟨"a", none, by decide, by simp, by simp⟩,
    .filler ⟨" ]]|", by decide⟩,
    .link ⟨"b\n#c", some "!", by decide, by simp, by simp⟩,
    .embed ⟨"b", none, by decide, by simp, by simp⟩,
    .link ⟨"a ", none, by decide, by simp, by simp⟩]
  have hunmarked : Unmarked pieces := by
    intro before r after heq
    simp [pieces, List.cons_eq_append_iff] at heq
    obtain ⟨_, rfl, ⟨rfl, -⟩ | ⟨_, rfl, ⟨rfl, -⟩ | ⟨rfl, -⟩⟩⟩ := heq
    all_goals decide
  obtain ⟨hlinks, hembeds⟩ := references_of_written pieces hunmarked
  refine ⟨pieces, hunmarked, by decide +kernel, hlinks.trans ?_, hembeds.trans ?_⟩
  · decide +kernel
  · decide +kernel

end MarkdownVault.Note
