import MarkdownVault.Proofs.Note.LineBreaks

/-!
# Front matter found twice

Metadata and body are told apart at fences, which stand on lines of their own. The block that is no
place for tags is dropped without regard to lines: it ends at the next three dashes. Where no three
dashes come in between, it ends at the same fence.
-/

namespace MarkdownVault.Note

open Text

variable {cs bs xs ys rest : List Char}

/-! ## Dashes -/

/-- Carriage returns make no difference to whether a text begins with dashes. -/
theorem isSome_dropStart?_plainBreaks {mark : List Char} (hmark : ∀ c ∈ mark, c = '-')
    (cs : List Char) : (dropStart? mark (plainBreaks cs)).isSome = (dropStart? mark cs).isSome := by
  have hbreaks : ∀ m ∈ mark, m ≠ '\r' ∧ m ≠ '\n' := fun m hm => hmark m hm ▸ by decide
  obtain ⟨hx, hy⟩ | ⟨rest, rest', hx, hy, -⟩ :=
    cases_rel (Unreturned.dropStart? hbreaks (Unreturned.plainBreaks cs)) <;> rw [hx, hy]
  rfl

theorem trimStart_of_dashes (h : (dropStart? ['-', '-', '-'] cs).isSome) : trimStart cs = cs := by
  obtain ⟨rest, hrest⟩ := Option.isSome_iff_exists.1 h
  rw [eq_of_dropStart? hrest]
  rfl

/-! ## The block that is dropped -/

/-- The text behind the second row of three dashes, if it opens with the first. -/
def behindBlock (cs : List Char) : List Char :=
  match dropStart? ['-', '-', '-'] cs with
  | none => cs
  | some rest => match cutFirst? ['-', '-', '-'] rest with
    | none => cs
    | some (_, after) => after

/-- A line feed is dropped with the block. -/
theorem dropBlock_cases (cs : List Char) :
    dropBlock cs = behindBlock cs ∨ behindBlock cs = '\n' :: dropBlock cs := by
  rw [dropBlock, behindBlock]
  cases dropStart? ['-', '-', '-'] cs with
  | none => exact .inl rfl
  | some rest =>
    rcases hcut : cutFirst? ['-', '-', '-'] rest with _ | ⟨before, after⟩
    · exact .inl (by simp only [hcut])
    · simp only [hcut]
      split
      case h_1 heq => cases heq
      case h_2 heq =>
        cases heq
        exact .inr rfl
      case h_3 heq =>
        cases heq
        exact .inl rfl

theorem tagsIn_dropBlock (cs : List Char) : tagsIn (dropBlock cs) = tagsIn (behindBlock cs) := by
  rcases dropBlock_cases cs with h | h
  · rw [h]
  · have hblank : ∀ c ∈ ['\n'], isBlank c := by simp [isBlank]
    rw [h, ← List.singleton_append, tagsIn_blank_append hblank]

theorem behindBlock_suffix (cs : List Char) : behindBlock cs <:+ cs := by
  rw [behindBlock]
  split
  · exact List.suffix_refl cs
  · split
    case h_1 => exact List.suffix_refl cs
    case h_2 hstart _ _ _ hcut =>
      rw [eq_of_dropStart? hstart, eq_of_cutFirst? hcut]
      exact ((List.suffix_append _ _).trans (List.suffix_append _ _))

theorem dropBlock_suffix (cs : List Char) : dropBlock cs <:+ cs := by
  rcases dropBlock_cases cs with h | h
  · exact h ▸ behindBlock_suffix cs
  · exact (List.suffix_cons '\n' (dropBlock cs)).trans (h ▸ behindBlock_suffix cs)

theorem Unreturned.behindBlock (h : Unreturned xs ys) :
    Unreturned (behindBlock xs) (behindBlock ys) := by
  have hdashes : ∀ m ∈ ['-', '-', '-'], m ≠ '\r' ∧ m ≠ '\n' := by simp
  rw [Note.behindBlock, Note.behindBlock]
  obtain ⟨hx, hy⟩ | ⟨rest, rest', hx, hy, hrest⟩ := cases_rel (dropStart? hdashes h)
  · simpa only [hx, hy] using h
  obtain ⟨hx', hy'⟩ | ⟨x, y, hx', hy', -, hafter⟩ := cases_rel (cutFirst? hdashes (by simp) hrest)
  · simpa only [hx, hy, hx', hy'] using h
  · simpa only [hx, hy, hx', hy'] using hafter

theorem behindBlock_append (h : ∀ c ∈ bs, isBlank c) (cs : List Char) :
    behindBlock (cs ++ bs) = behindBlock cs ++ bs := by
  have hdashes : ∀ c ∈ ['-', '-', '-'], c ∉ bs := by
    simp only [List.mem_cons, List.not_mem_nil, or_false, or_self, forall_eq]
    exact fun hmem => absurd (h _ hmem) (by decide)
  rw [behindBlock, behindBlock, dropStart?_append hdashes]
  cases dropStart? ['-', '-', '-'] cs with
  | none => rfl
  | some rest =>
    simp only [Option.map_some, cutFirst?_append (List.cons_ne_nil _ _) hdashes]
    cases cutFirst? ['-', '-', '-'] rest <;> rfl

/-! ## The front matter that is read -/

theorem exists_fromLastBreak {atEnd : Bool} (h : fromLastBreak? atEnd bs = some rest) :
    (∃ skipped, bs = skipped ++ rest) ∧ (rest = [] ∧ atEnd ∨ ∃ more, rest = '\n' :: more) := by
  induction bs generalizing rest with
  | nil =>
    rw [fromLastBreak?] at h
    split at h
    case isTrue hend =>
      cases h
      exact ⟨⟨[], rfl⟩, .inl ⟨rfl, hend⟩⟩
    case isFalse => cases h
  | cons c bs ih =>
    rw [fromLastBreak?] at h
    split at h
    case h_1 found hfound =>
      cases h
      obtain ⟨⟨skipped, hskipped⟩, hrest⟩ := ih hfound
      exact ⟨⟨c :: skipped, by rw [hskipped, List.cons_append]⟩, hrest⟩
    case h_2 =>
      split at h
      case isTrue hc =>
        cases h
        exact ⟨⟨[], rfl⟩, .inr ⟨bs, by rw [hc]⟩⟩
      case isFalse => cases h

/-- Three dashes, more of them and blanks up to the end of a line. -/
structure IsFence (fence rest : List Char) : Prop where
  opens : ∃ more, fence = '-' :: '-' :: '-' :: more ∧
    ∃ dashes blanks, more = dashes ++ blanks ∧ (∀ c ∈ dashes, c = '-') ∧ ∀ c ∈ blanks, isBlank c
  ends : rest = [] ∨ ∃ more, rest = '\n' :: more

theorem exists_fence_of_boundary? (h : boundary? cs = some rest) :
    ∃ fence, cs = fence ++ rest ∧ IsFence fence rest := by
  rw [boundary?] at h
  split at h
  case h_1 => cases h
  case h_2 cs' hstart =>
    obtain ⟨found, hfound, rfl⟩ := Option.map_eq_some_iff.1 h
    obtain ⟨⟨skipped, hskipped⟩, hends⟩ := exists_fromLastBreak hfound
    have hdashes := cs'.takeWhile_append_dropWhile (p := (· == '-'))
    have hblanks := (cs'.dropWhile (· == '-')).takeWhile_append_dropWhile (p := isBlank)
    refine ⟨'-' :: '-' :: '-' :: (cs'.takeWhile (· == '-') ++ skipped), ?_,
      ⟨_, rfl, _, _, rfl, ?_, ?_⟩, ?_⟩
    · rw [eq_of_dropStart? hstart]
      conv => lhs; rw [← hdashes, ← hblanks, hskipped]
      simp
    · intro c hc
      simpa using List.mem_takeWhile_imp hc
    · intro c hc
      refine List.mem_takeWhile_imp (p := isBlank) (l := cs'.dropWhile (· == '-')) ?_
      rw [hskipped]
      exact List.mem_append_left found hc
    · rcases hends with ⟨rfl, hend⟩ | ⟨more, rfl⟩
      · exact .inl (by simpa using hend)
      · exact .inr ⟨_, rfl⟩

/-- A fence stands where the text starts, if that is the start of a line, or behind a line feed. -/
theorem exists_fence_of_cutBoundary? {lineStart : Bool} {before : List Char}
    (h : cutBoundary? lineStart cs = some (before, rest)) :
    ∃ fence, cs = before ++ fence ++ rest ∧ IsFence fence rest ∧
      (before = [] ∧ lineStart ∨ before.getLast? = some '\n') := by
  induction cs generalizing lineStart before with
  | nil =>
    have hnone : boundary? [] = none := rfl
    rw [cutBoundary?, hnone, ite_self] at h
    cases h
  | cons c cs ih =>
    rw [cutBoundary?] at h
    split at h
    case h_1 found hboundary =>
      cases h
      cases lineStart with
      | false => cases hboundary
      | true =>
        obtain ⟨fence, heq, hfence⟩ := exists_fence_of_boundary? hboundary
        exact ⟨fence, heq, hfence, .inl ⟨rfl, rfl⟩⟩
    case h_2 =>
      obtain ⟨⟨b, a⟩, hcut, hparts⟩ := Option.map_eq_some_iff.1 h
      cases hparts
      obtain ⟨fence, heq, hfence, hlast⟩ := ih hcut
      refine ⟨fence, by rw [heq]; rfl, hfence, .inr ?_⟩
      rcases hlast with ⟨rfl, hc⟩ | hlast
      · rw [List.getLast?_singleton, eq_of_beq hc]
      · rw [List.getLast?_cons, hlast, Option.getD_some]

/-- Metadata stand on lines of their own between two fences. -/
theorem exists_fences {metadata : List Char} (h : cutFrontMatter? cs = some (metadata, rest)) :
    ∃ opening closing, cs = opening ++ (metadata ++ (closing ++ rest)) ∧
      IsFence opening (metadata ++ (closing ++ rest)) ∧ IsFence closing rest ∧
      metadata.head? = some '\n' ∧ metadata.getLast? = some '\n' := by
  rw [cutFrontMatter?] at h
  split at h
  case h_1 => cases h
  case h_2 inner hboundary =>
    obtain ⟨opening, rfl, hopening⟩ := exists_fence_of_boundary? hboundary
    obtain ⟨closing, rfl, hclosing, hlast⟩ := exists_fence_of_cutBoundary? h
    rw [List.append_assoc] at hopening ⊢
    obtain ⟨more, hmore, -⟩ := hclosing.opens
    have hhead : metadata.head? = some '\n' := by
      cases metadata with
      | nil =>
        rcases hopening.ends with hnil | ⟨more, hbreak⟩ <;> simp_all
      | cons c metadata =>
        rcases hopening.ends with hnil | ⟨more, hbreak⟩ <;> simp_all
    refine ⟨opening, closing, rfl, hopening, hclosing, hhead, ?_⟩
    rcases hlast with ⟨rfl, -⟩ | hlast
    · cases hhead
    · exact hlast

theorem cutFrontMatter?_suffix {metadata : List Char}
    (h : cutFrontMatter? cs = some (metadata, rest)) : rest <:+ cs := by
  obtain ⟨opening, closing, rfl, -⟩ := exists_fences h
  exact ⟨opening ++ (metadata ++ closing), by simp⟩

/-! ## Where the two end -/

theorem cutFirst?_of_length_lt (hshort : cs.length < 3) : cutFirst? ['-', '-', '-'] cs = none := by
  cases hcut : cutFirst? ['-', '-', '-'] cs with
  | none => rfl
  | some parts =>
    have hlength : parts.1.length + 3 + parts.2.length = cs.length := length_cutFirst? hcut
    omega

/-- No three dashes stand before the end of the metadata, if there are fewer than six at the start
and none within. -/
theorem cutFirst?_of_fences {dashes blanks metadata : List Char} (hfew : dashes.length < 3)
    (hblanks : ∀ c ∈ blanks, isBlank c) (hhead : metadata.head? = some '\n')
    (hclean : cutFirst? ['-', '-', '-'] metadata = none) :
    cutFirst? ['-', '-', '-'] (dashes ++ (blanks ++ metadata)) = none := by
  have hblank : '-' ∉ blanks := fun hmem => absurd (hblanks _ hmem) (by decide)
  have hnone : cutFirst? ['-', '-', '-'] (blanks ++ metadata) = none := by
    rw [cutFirst?_prepend hblank, hclean, Option.map_none]
  -- The character behind the dashes is another one, so they end there.
  obtain ⟨c, after, hafter, hc⟩ : ∃ c after, blanks ++ metadata = [c] ++ after ∧ '-' ∉ [c] := by
    cases blanks with
    | nil =>
      obtain ⟨after, rfl⟩ := List.head?_eq_some_iff.1 hhead
      exact ⟨'\n', after, rfl, by decide⟩
    | cons c blanks =>
      exact ⟨c, blanks ++ metadata, rfl, fun hmem => hblank (by simp_all)⟩
  rw [hafter] at hnone ⊢
  rw [cutFirst?_prepend hc, Option.map_eq_none_iff] at hnone
  have hmark : c ∉ ['-', '-', '-'] := by simpa [eq_comm] using hc
  rw [List.singleton_append, cutFirst?_append_cons (by simp) hmark, cutFirst?_of_length_lt hfew,
    hnone]
  rfl

/-- The block that is dropped ends in the fence behind the metadata, if the text opens with fewer
than six dashes and its metadata hold no three. -/
theorem behindBlock_of_fences {metadata : List Char}
    (hcut : cutFrontMatter? cs = some (metadata, rest))
    (hshort : dropStart? ['-', '-', '-', '-', '-', '-'] cs = none)
    (hclean : cutFirst? ['-', '-', '-'] metadata = none) :
    ∃ more, behindBlock cs = more ++ rest ∧ (∀ c ∈ more, c = '-' ∨ isBlank c) ∧
      (rest = [] ∨ ∃ after, rest = '\n' :: after) := by
  obtain ⟨opening, closing, rfl, hopening, hclosing, hhead, hlast⟩ := exists_fences hcut
  obtain ⟨_, rfl, dashes, blanks, rfl, hdashes, hblanks⟩ := hopening.opens
  obtain ⟨more, rfl, dashes', blanks', rfl, hdashes', hblanks'⟩ := hclosing.opens
  have hfew : dashes.length < 3 := by
    refine Nat.lt_of_not_le fun hmany => ?_
    match dashes, hmany with
    | a :: b :: c :: dashes, _ =>
      simp only [List.forall_mem_cons] at hdashes
      obtain ⟨rfl, rfl, rfl, -⟩ := hdashes
      simp [dropStart?, List.isPrefixOf] at hshort
  have hinner := cutFirst?_of_fences hfew hblanks hhead hclean
  obtain ⟨front, rfl⟩ := List.getLast?_eq_some_iff.1 hlast
  have hmark : ['-', '-', '-'] ≠ [] := by simp
  have hbreak : '\n' ∉ ['-', '-', '-'] := by decide
  have hfront : cutFirst? ['-', '-', '-'] (dashes ++ (blanks ++ front)) = none := by
    have hsplit := cutFirst?_append_cons hmark hbreak (dashes ++ (blanks ++ front)) []
    rw [List.append_assoc, List.append_assoc, hinner] at hsplit
    cases hcut : cutFirst? ['-', '-', '-'] (dashes ++ (blanks ++ front)) with
    | none => rfl
    | some parts =>
      rw [hcut] at hsplit
      cases hsplit
  refine ⟨dashes' ++ blanks', ?_, ?_, hclosing.ends⟩
  · have hbehind := cutFirst?_append_cons hmark hbreak (dashes ++ (blanks ++ front))
      ('-' :: '-' :: '-' :: (dashes' ++ blanks' ++ rest))
    rw [hfront] at hbehind
    have hstart (xs : List Char) : dropStart? ['-', '-', '-'] ('-' :: '-' :: '-' :: xs) = some xs :=
      rfl
    simp only [List.cons_append, List.append_assoc, List.nil_append] at hbehind ⊢
    rw [behindBlock, hstart]
    simp only [hbehind]
    simp [cutFirst?, List.isPrefixOf]
  · intro c hc
    rw [List.mem_append] at hc
    exact hc.imp (hdashes' c) (hblanks' c)

end MarkdownVault.Note
