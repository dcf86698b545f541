import Mathlib.Data.List.Basic
import Mathlib.Data.List.DropRight
import MarkdownVault.Text.Basic

/-!
# Cutting a text

A mark is looked for from the front. Characters that do not occur in it, in front of a text or
behind it, make no difference to where it is found.
-/

namespace MarkdownVault.Text

variable {mark cs bs : List Char}

/-! ## Runs -/

section Runs

variable {α : Type} {p : α → Bool} {xs ys : List α}

/-- A run of items of a class ends in front of another item. -/
theorem span_of_ends (h : ∀ x ∈ xs, p x) (hends : ∀ y ∈ ys.head?, p y = false) :
    (xs ++ ys).takeWhile p = xs ∧ (xs ++ ys).dropWhile p = ys := by
  rw [List.takeWhile_append_of_pos h, List.dropWhile_append_of_pos h]
  cases ys with
  | nil => exact ⟨List.append_nil xs, rfl⟩
  | cons y ys =>
    have hy : ¬p y := by simp [hends y rfl]
    rw [List.takeWhile_cons_of_neg hy, List.dropWhile_cons_of_neg hy, List.append_nil]
    exact ⟨rfl, rfl⟩

theorem span_of_stop {y : α} (h : ∀ x ∈ xs, p x) (hy : p y = false) (ys : List α) :
    (xs ++ y :: ys).takeWhile p = xs ∧ (xs ++ y :: ys).dropWhile p = y :: ys :=
  span_of_ends h (by rintro _ ⟨⟩; exact hy)

theorem head?_dropWhile (xs : List α) : ∀ x ∈ (xs.dropWhile p).head?, p x = false := by
  intro x hx
  have hhead := List.head?_dropWhile_not p xs
  rw [Option.mem_def.1 hx] at hhead
  simpa using hhead

end Runs

/-! ## Trimming -/

/-- Trimming the end takes off blanks. -/
theorem exists_trimEnd (cs : List Char) : ∃ bs, (∀ c ∈ bs, isBlank c) ∧ cs = trimEnd cs ++ bs := by
  refine ⟨(cs.reverse.takeWhile isBlank).reverse, ?_, ?_⟩
  · intro c hc
    exact List.mem_takeWhile_imp (List.mem_reverse.1 hc)
  · rw [trimEnd, dropEndWhile, ← List.reverse_append, List.takeWhile_append_dropWhile,
      List.reverse_reverse]

/-- Trimming takes off blanks from both ends. -/
theorem exists_trim (cs : List Char) : ∃ bs, (∀ c ∈ bs, isBlank c) ∧
    cs = cs.takeWhile isBlank ++ trim cs ++ bs := by
  obtain ⟨bs, hbs, hend⟩ := exists_trimEnd (trimStart cs)
  refine ⟨bs, hbs, ?_⟩
  rw [List.append_assoc, trim, ← hend, trimStart, List.takeWhile_append_dropWhile]

theorem trim_prepend (h : ∀ c ∈ bs, isBlank c) (cs : List Char) : trim (bs ++ cs) = trim cs := by
  rw [trim, trimStart, List.dropWhile_append_of_pos h]
  rfl

theorem trimEnd_append (h : ∀ c ∈ bs, isBlank c) (cs : List Char) :
    trimEnd (cs ++ bs) = trimEnd cs := by
  rw [trimEnd, dropEndWhile, List.reverse_append,
    List.dropWhile_append_of_pos fun c hc => h c (List.mem_reverse.1 hc)]
  rfl

theorem trim_append (h : ∀ c ∈ bs, isBlank c) (cs : List Char) : trim (cs ++ bs) = trim cs := by
  rw [trim, trim, trimStart, trimStart, List.dropWhile_append]
  split
  case isTrue hempty =>
    rw [List.isEmpty_iff.1 hempty, List.dropWhile_eq_nil_iff.2 h]
  case isFalse => exact trimEnd_append h _

/-- Only blanks are trimmed. -/
theorem mem_trim {c : Char} (hc : c ∈ cs) (hdark : ¬isBlank c) : c ∈ trim cs := by
  obtain ⟨bs, hbs, hcs⟩ := exists_trim cs
  rw [hcs, List.append_assoc, List.mem_append, List.mem_append] at hc
  rcases hc with hc | hc | hc
  · exact absurd (List.mem_takeWhile_imp hc) hdark
  · exact hc
  · exact absurd (hbs c hc) hdark

theorem exists_first_dark (h : ∃ c ∈ cs, ¬isBlank c) :
    ∃ bs c rest, cs = bs ++ c :: rest ∧ (∀ d ∈ bs, isBlank d) ∧ ¬isBlank c := by
  have hfound : (cs.find? fun d => !isBlank d).isSome := by simpa using h
  obtain ⟨c, hc⟩ := Option.isSome_iff_exists.1 hfound
  obtain ⟨hdark, bs, rest, rfl, hbs⟩ := List.find?_eq_some_iff_append.1 hc
  exact ⟨bs, c, rest, rfl, by simpa using hbs, by simpa using hdark⟩

theorem count_trim {c : Char} (hdark : ¬isBlank c) (cs : List Char) :
    (trim cs).count c = cs.count c := by
  obtain ⟨bs, hbs, hcs⟩ := exists_trim cs
  have hstart : (cs.takeWhile isBlank).count c = 0 :=
    List.count_eq_zero.2 fun hmem => hdark (List.mem_takeWhile_imp hmem)
  have hend : bs.count c = 0 := List.count_eq_zero.2 fun hmem => hdark (hbs c hmem)
  have hcount := congrArg (List.count c) hcs
  rw [List.count_append, List.count_append, hstart, hend] at hcount
  omega

/-- Trimming the end stops at the last character that is not blank. -/
theorem trimEnd_append_cons {c : Char} (hdark : ¬isBlank c) (cs bs : List Char) :
    trimEnd (cs ++ c :: bs) = cs ++ c :: trimEnd bs := by
  have hstop : (c :: cs.reverse).dropWhile isBlank = c :: cs.reverse :=
    List.dropWhile_cons_of_neg hdark
  rw [trimEnd, trimEnd, dropEndWhile, dropEndWhile, List.reverse_append, List.reverse_cons,
    List.append_assoc, List.singleton_append, List.dropWhile_append]
  split
  case isTrue hempty =>
    rw [List.isEmpty_iff.1 hempty, hstop]
    simp
  case isFalse => simp

/-- Between two characters that are not blank nothing is trimmed. -/
theorem trim_enclosed {c d : Char} (hc : ¬isBlank c) (hd : ¬isBlank d) (cs : List Char) :
    trim (c :: (cs ++ [d])) = c :: (cs ++ [d]) := by
  have hend := trimEnd_append_cons hd (c :: cs) []
  rw [trim, trimStart, List.dropWhile_cons_of_neg hc]
  exact hend

theorem trim_of_dark (h : ∀ c ∈ cs, ¬isBlank c) : trim cs = cs := by
  cases cs with
  | nil => rfl
  | cons c cs =>
    obtain ⟨hc, hcs⟩ := List.forall_mem_cons.1 h
    rcases List.eq_nil_or_concat' cs with rfl | ⟨cs, d, rfl⟩
    · rw [trim, trimStart, List.dropWhile_cons_of_neg hc]
      exact trimEnd_append_cons hc [] []
    · exact trim_enclosed hc (hcs d (by simp)) cs

theorem length_trim_le (cs : List Char) : (trim cs).length ≤ cs.length := by
  obtain ⟨bs, -, hcs⟩ := exists_trim cs
  have hlength := congrArg List.length hcs
  rw [List.length_append, List.length_append] at hlength
  omega

/-! ## Marks -/

/-- A mark does not run on over a character that it does not hold. -/
theorem isPrefixOf_append_cons {c : Char} (hc : c ∉ mark) (cs bs : List Char) :
    mark.isPrefixOf (cs ++ c :: bs) = mark.isPrefixOf cs := by
  induction mark generalizing cs with
  | nil => simp
  | cons m mark ih =>
    obtain ⟨hne, hrest⟩ := List.ne_and_not_mem_of_not_mem_cons hc
    cases cs with
    | nil => simp [List.isPrefixOf, hne.symm]
    | cons d cs => rw [List.cons_append, List.isPrefixOf, List.isPrefixOf, ih hrest]

theorem isPrefixOf_append (h : ∀ c ∈ mark, c ∉ bs) :
    mark.isPrefixOf (cs ++ bs) = mark.isPrefixOf cs := by
  cases bs with
  | nil => rw [List.append_nil]
  | cons c bs => exact isPrefixOf_append_cons (fun hc => h c hc List.mem_cons_self) cs bs

theorem prefix_append_cases (h : mark <+: cs ++ bs) :
    mark <+: cs ∨ ∃ rest, rest <+: bs ∧ mark = cs ++ rest := by
  rcases List.prefix_or_prefix_of_prefix h (List.prefix_append cs bs) with hprefix | ⟨rest, rfl⟩
  · exact .inl hprefix
  · exact .inr ⟨rest, (List.prefix_append_right_inj cs).1 h, rfl⟩

/-- A mark that ends with a character ends before others. -/
theorem concat_prefix_append_iff {c : Char} (hc : c ∉ bs) :
    mark ++ [c] <+: cs ++ bs ↔ mark ++ [c] <+: cs := by
  refine ⟨fun h => ?_, fun h => h.trans (List.prefix_append cs bs)⟩
  rcases prefix_append_cases h with hprefix | ⟨rest, hrest, heq⟩
  · exact hprefix
  · rcases List.eq_nil_or_concat' rest with rfl | ⟨front, d, rfl⟩
    · exact ⟨[], by simpa using heq⟩
    · rw [← List.append_assoc] at heq
      have hd : c = d := List.singleton_inj.1 (List.append_inj' heq rfl).2
      exact absurd (hrest.subset (by simp [hd])) hc

/-- A mark stands on one side of a character that it does not hold. -/
theorem infix_of_infix_append_cons {c : Char} (hc : c ∉ mark) (h : mark <:+: cs ++ c :: bs) :
    mark <:+: cs ∨ mark <:+: bs := by
  induction cs with
  | nil =>
    rcases List.infix_cons_iff.1 h with hprefix | hinfix
    · have hp := isPrefixOf_append_cons hc [] bs
      rw [List.nil_append, List.isPrefixOf_iff_prefix.2 hprefix] at hp
      exact .inl (List.isPrefixOf_iff_prefix.1 hp.symm).isInfix
    · exact .inr hinfix
  | cons d cs ih =>
    rw [List.cons_append] at h
    rcases List.infix_cons_iff.1 h with hprefix | hinfix
    · rw [← List.cons_append, ← List.isPrefixOf_iff_prefix, isPrefixOf_append_cons hc,
        List.isPrefixOf_iff_prefix] at hprefix
      exact .inl hprefix.isInfix
    · exact (ih hinfix).imp_left fun h => h.trans (List.suffix_cons d cs).isInfix

theorem dropStart?_append (h : ∀ c ∈ mark, c ∉ bs) :
    dropStart? mark (cs ++ bs) = (dropStart? mark cs).map (· ++ bs) := by
  rw [dropStart?, dropStart?, isPrefixOf_append h]
  by_cases hp : mark.isPrefixOf cs
  · have hlength := (List.isPrefixOf_iff_prefix.1 hp).length_le
    rw [if_pos hp, if_pos hp, Option.map_some, List.drop_append_of_le_length hlength]
  · rw [if_neg hp, if_neg hp, Option.map_none]

theorem dropStart?_cons (m c : Char) (mark cs : List Char) :
    dropStart? (m :: mark) (c :: cs) = if m = c then dropStart? mark cs else none := by
  by_cases h : m = c <;> simp [dropStart?, List.isPrefixOf, h]

theorem cutFirst?_cons (mark : List Char) (c : Char) (cs : List Char) :
    cutFirst? mark (c :: cs) = match dropStart? mark (c :: cs) with
      | some rest => some ([], rest)
      | none => (cutFirst? mark cs).map fun (before, after) => (c :: before, after) := by
  rw [cutFirst?, dropStart?]
  by_cases h : mark.isPrefixOf (c :: cs)
  · rw [if_pos h, if_pos h]
  · rw [if_neg h, if_neg h]

theorem dropStart?_prefix (mark cs : List Char) : dropStart? mark (mark ++ cs) = some cs := by
  rw [dropStart?, if_pos (List.isPrefixOf_iff_prefix.2 (List.prefix_append mark cs)),
    List.drop_left]

theorem eq_of_dropStart? {rest : List Char} (h : dropStart? mark cs = some rest) :
    cs = mark ++ rest := by
  rw [dropStart?] at h
  split at h
  case isTrue hp =>
    obtain ⟨after, rfl⟩ := List.isPrefixOf_iff_prefix.1 hp
    rw [List.drop_left, Option.some_inj] at h
    rw [h]
  case isFalse => cases h

theorem eq_of_cutFirst? {before after : List Char} (h : cutFirst? mark cs = some (before, after)) :
    cs = before ++ mark ++ after := by
  induction cs generalizing before with
  | nil =>
    rw [cutFirst?] at h
    split at h <;> simp_all
  | cons c cs ih =>
    rw [cutFirst?] at h
    split at h
    case isTrue hp =>
      obtain ⟨rest, hrest⟩ := List.isPrefixOf_iff_prefix.1 hp
      rw [← hrest, List.drop_left] at h
      cases h
      exact hrest.symm
    case isFalse =>
      obtain ⟨⟨b, a⟩, hcut, hparts⟩ := Option.map_eq_some_iff.1 h
      cases hparts
      rw [ih hcut, List.cons_append, List.cons_append]

theorem exists_cutFirst?_of_infix (h : mark <:+: cs) : ∃ parts, cutFirst? mark cs = some parts := by
  induction cs with
  | nil => exact ⟨([], []), by rw [List.infix_nil.1 h]; rfl⟩
  | cons c cs ih =>
    rw [cutFirst?]
    split
    case isTrue => exact ⟨_, rfl⟩
    case isFalse hp =>
      rcases List.infix_cons_iff.1 h with hprefix | hinfix
      · exact absurd (List.isPrefixOf_iff_prefix.2 hprefix) hp
      · obtain ⟨parts, hparts⟩ := ih hinfix
        exact ⟨_, by rw [hparts]; rfl⟩

theorem hasPart_iff_infix : hasPart mark cs ↔ mark <:+: cs := by
  rw [hasPart, Option.isSome_iff_exists]
  constructor
  · rintro ⟨⟨before, after⟩, hcut⟩
    exact ⟨before, after, (eq_of_cutFirst? hcut).symm⟩
  · exact exists_cutFirst?_of_infix

theorem cutFirst?_of_disjoint (hmark : mark ≠ []) (h : ∀ c ∈ mark, c ∉ cs) :
    cutFirst? mark cs = none := by
  cases hcut : cutFirst? mark cs with
  | none => rfl
  | some parts =>
    obtain ⟨c, hc⟩ := List.exists_mem_of_ne_nil mark hmark
    refine absurd ?_ (h c hc)
    rw [eq_of_cutFirst? hcut]
    simp [hc]

theorem cutFirst?_prepend {m : Char} {p : List Char} (h : m ∉ p) :
    cutFirst? (m :: mark) (p ++ cs) =
      (cutFirst? (m :: mark) cs).map fun (before, after) => (p ++ before, after) := by
  induction p with
  | nil => simp
  | cons c p ih =>
    obtain ⟨hne, hp⟩ := List.ne_and_not_mem_of_not_mem_cons h
    rw [List.cons_append, cutFirst?, List.isPrefixOf, beq_false_of_ne hne, Bool.false_and,
      if_neg Bool.false_ne_true, ih hp, Option.map_map]
    rfl

/-- A mark stands before a character that it does not hold, or behind it. -/
theorem cutFirst?_append_cons {c : Char} (hmark : mark ≠ []) (hc : c ∉ mark) (cs bs : List Char) :
    cutFirst? mark (cs ++ c :: bs) = match cutFirst? mark cs with
      | some (before, after) => some (before, after ++ c :: bs)
      | none => (cutFirst? mark bs).map fun (before, after) => (cs ++ c :: before, after) := by
  induction cs with
  | nil =>
    have hp : mark.isPrefixOf (c :: bs) = mark.isPrefixOf [] := isPrefixOf_append_cons hc [] bs
    have hnil : mark.isPrefixOf [] = false := by cases mark <;> simp_all
    rw [List.nil_append, @cutFirst?_of_disjoint mark [] hmark (by simp), cutFirst?, hp, hnil]
    rfl
  | cons d cs ih =>
    rw [List.cons_append, cutFirst?, cutFirst?, ← List.cons_append, isPrefixOf_append_cons hc, ih]
    by_cases hp : mark.isPrefixOf (d :: cs)
    · have hlength := (List.isPrefixOf_iff_prefix.1 hp).length_le
      rw [if_pos hp, if_pos hp, List.drop_append_of_le_length hlength]
    · rw [if_neg hp, if_neg hp]
      cases cutFirst? mark cs with
      | none =>
        simp only [Option.map_none, Option.map_map]
        rfl
      | some parts => rfl

theorem cutFirst?_append (hmark : mark ≠ []) (h : ∀ c ∈ mark, c ∉ bs) :
    cutFirst? mark (cs ++ bs) =
      (cutFirst? mark cs).map fun (before, after) => (before, after ++ bs) := by
  cases bs with
  | nil => simp
  | cons c bs =>
    have hbs : cutFirst? mark bs = none :=
      cutFirst?_of_disjoint hmark fun d hd hmem => h d hd (List.mem_cons_of_mem c hmem)
    rw [cutFirst?_append_cons hmark (fun hc => h c hc List.mem_cons_self), hbs]
    cases cutFirst? mark cs <;> rfl

end MarkdownVault.Text
