import MarkdownVault.Note.Tag
import MarkdownVault.Proofs.Text.Cutting

/-!
# Tags and code

What is found in a text does not depend on blanks around it or on carriage returns before its line
feeds. A part in front of a text that holds no code only adds its own tags.
-/

namespace MarkdownVault.Note

open Text

variable {a b p cs bs xs ys rest : List Char} {c : Char}

/-- The text without its code. -/
def withoutCode (cs : List Char) : List Char := dropCodeSpans (dropFenced cs)

/-- The tags in a text outside its code. -/
def tagsIn (cs : List Char) : List (List Char) := tagsFrom true (withoutCode cs)

/-! ## Code spans -/

theorem dropCodeSpans_cons_of_ne (hc : c ≠ '\x60') (cs : List Char) :
    dropCodeSpans (c :: cs) = c :: dropCodeSpans cs := by
  rw [dropCodeSpans, if_neg fun h => hc h.1]

theorem dropCodeSpans_pair (cs : List Char) :
    dropCodeSpans ('\x60' :: '\x60' :: cs) = '\x60' :: dropCodeSpans ('\x60' :: cs) := by
  rw [dropCodeSpans, if_neg (by simp)]

theorem dropCodeSpans_of_notMem (h : '\x60' ∉ cs) : dropCodeSpans cs = cs := by
  induction cs with
  | nil => rw [dropCodeSpans]
  | cons c cs ih =>
    obtain ⟨hne, hcs⟩ := List.ne_and_not_mem_of_not_mem_cons h
    rw [dropCodeSpans_cons_of_ne (Ne.symm hne), ih hcs]

theorem bne_of_notMem (h : '\x60' ∉ a) : ∀ c ∈ a, c != '\x60' := by
  rintro c hc
  rw [bne_iff_ne]
  rintro rfl
  exact h hc

theorem dropCodeSpans_unclosed (h : '\x60' ∉ cs) : dropCodeSpans ('\x60' :: cs) = '\x60' :: cs := by
  have hdrop : cs.dropWhile (· != '\x60') = [] := List.dropWhile_eq_nil_iff.2 (bne_of_notMem h)
  rw [dropCodeSpans]
  split
  · split
    case h_1 heq => cases hdrop.symm.trans heq
    case h_2 => rw [dropCodeSpans_of_notMem h]
  · rw [dropCodeSpans_of_notMem h]

theorem dropCodeSpans_span (ha : a ≠ []) (h : '\x60' ∉ a) (rest : List Char) :
    dropCodeSpans ('\x60' :: (a ++ '\x60' :: rest)) = dropCodeSpans rest := by
  have hmark : ('\x60' != '\x60') = false := by decide
  obtain ⟨htake, hdrop⟩ := span_of_stop (bne_of_notMem h) hmark rest
  rw [dropCodeSpans, if_pos (by simpa [htake] using ha)]
  split
  case h_1 heq => cases hdrop.symm.trans heq; rfl
  case h_2 heq => cases hdrop.symm.trans heq

/-- What a text may begin with, as far as code spans go. -/
theorem span_induction {motive : List Char → Prop} (plain : ∀ cs, '\x60' ∉ cs → motive cs)
    (other : ∀ c cs, c ≠ '\x60' → motive cs → motive (c :: cs))
    (unclosed : ∀ cs, '\x60' ∉ cs → motive ('\x60' :: cs))
    (pair : ∀ rest, motive ('\x60' :: rest) → motive ('\x60' :: '\x60' :: rest))
    (span : ∀ a rest, a ≠ [] → '\x60' ∉ a → motive rest → motive ('\x60' :: (a ++ '\x60' :: rest)))
    (cs : List Char) : motive cs := by
  induction hlength : cs.length using Nat.strongRecOn generalizing cs with
  | _ length ih =>
    subst hlength
    cases cs with
    | nil => exact plain [] (by simp)
    | cons c cs =>
      by_cases hc : c = '\x60'
      · subst hc
        by_cases hcs : '\x60' ∈ cs
        · obtain ⟨a, rest, rfl, ha⟩ := List.eq_append_cons_of_mem hcs
          by_cases hnil : a = []
          · subst hnil
            exact pair rest (ih _ (by simp) _ rfl)
          · exact span a rest hnil ha (ih _ (by simp; omega) _ rfl)
        · exact unclosed cs hcs
      · exact other c cs hc (ih cs.length (by simp) cs rfl)

theorem dropCodeSpans_prepend (h : '\x60' ∉ p) (cs : List Char) :
    dropCodeSpans (p ++ cs) = p ++ dropCodeSpans cs := by
  induction p with
  | nil => rfl
  | cons c p ih =>
    obtain ⟨hne, hp⟩ := List.ne_and_not_mem_of_not_mem_cons h
    rw [List.cons_append, dropCodeSpans_cons_of_ne (Ne.symm hne), ih hp, List.cons_append]

theorem dropCodeSpans_append (h : '\x60' ∉ bs) (cs : List Char) :
    dropCodeSpans (cs ++ bs) = dropCodeSpans cs ++ bs := by
  induction cs using span_induction with
  | plain cs hcs =>
    rw [dropCodeSpans_of_notMem hcs, dropCodeSpans_of_notMem (by simp [hcs, h])]
  | other c cs hc ih =>
    rw [List.cons_append, dropCodeSpans_cons_of_ne hc, dropCodeSpans_cons_of_ne hc, ih,
      List.cons_append]
  | unclosed cs hcs =>
    rw [List.cons_append, dropCodeSpans_unclosed hcs, dropCodeSpans_unclosed (by simp [hcs, h]),
      List.cons_append]
  | pair rest ih =>
    rw [List.cons_append, List.cons_append, dropCodeSpans_pair, dropCodeSpans_pair,
      ← List.cons_append, ih, List.cons_append]
  | span a rest ha hnone ih =>
    rw [List.cons_append, List.append_assoc, List.cons_append, dropCodeSpans_span ha hnone,
      dropCodeSpans_span ha hnone, ih]

/-! ## Fenced code -/

theorem mem_fence_iff : c ∈ fence ↔ c = '\x60' := by simp [fence]

theorem dropFenced_eq (cs : List Char) : dropFenced cs =
    match cutFirst? fence cs with
    | none => cs
    | some (before, rest) => match cutFirst? fence rest with
      | none => cs
      | some (_, after) => before ++ dropFenced after := by
  rw [dropFenced]
  split
  case h_1 h => rw [h]
  case h_2 h =>
    split
    case h_1 h' => simp only [h, h']
    case h_2 h' => simp only [h, h']

theorem dropFenced_prepend (h : '\x60' ∉ p) (cs : List Char) :
    dropFenced (p ++ cs) = p ++ dropFenced cs := by
  have hcut : cutFirst? fence (p ++ cs) =
      (cutFirst? fence cs).map fun parts => (p ++ parts.1, parts.2) := cutFirst?_prepend h
  rw [dropFenced_eq, dropFenced_eq cs, hcut]
  rcases cutFirst? fence cs with _ | ⟨before, rest⟩
  · rfl
  · simp only [Option.map_some]
    rcases cutFirst? fence rest with _ | ⟨code, after⟩
    · rfl
    · exact List.append_assoc p before _

theorem dropFenced_append (h : '\x60' ∉ bs) (cs : List Char) :
    dropFenced (cs ++ bs) = dropFenced cs ++ bs := by
  have hcut (cs : List Char) : cutFirst? fence (cs ++ bs) =
      (cutFirst? fence cs).map fun parts => (parts.1, parts.2 ++ bs) :=
    cutFirst?_append (by simp [fence]) fun c hc => mem_fence_iff.1 hc ▸ h
  induction hlength : cs.length using Nat.strongRecOn generalizing cs with
  | _ length ih =>
    subst hlength
    rw [dropFenced_eq, dropFenced_eq cs, hcut]
    cases hfirst : cutFirst? fence cs with
    | none => rfl
    | some parts =>
      obtain ⟨before, rest⟩ := parts
      simp only [Option.map_some, hcut]
      cases hsecond : cutFirst? fence rest with
      | none => rfl
      | some parts =>
        obtain ⟨code, after⟩ := parts
        have hlength := length_cutFirst? hfirst
        have hlength' := length_cutFirst? hsecond
        have hfence : fence.length = 3 := rfl
        simp only [Option.map_some]
        rw [ih after.length (by omega) after rfl, List.append_assoc]

theorem withoutCode_prepend (h : '\x60' ∉ p) (cs : List Char) :
    withoutCode (p ++ cs) = p ++ withoutCode cs := by
  rw [withoutCode, dropFenced_prepend h, dropCodeSpans_prepend h, withoutCode]

theorem withoutCode_append (h : '\x60' ∉ bs) (cs : List Char) :
    withoutCode (cs ++ bs) = withoutCode cs ++ bs := by
  rw [withoutCode, dropFenced_append h, dropCodeSpans_append h, withoutCode]

theorem withoutCode_of_notMem (h : '\x60' ∉ p) : withoutCode p = p := by
  have hnil : withoutCode [] = [] := by
    rw [withoutCode, dropFenced_eq]
    exact @dropCodeSpans_of_notMem [] (by simp)
  have happend := withoutCode_prepend h []
  rwa [hnil, List.append_nil] at happend

/-! ## Tags -/

theorem not_isTagPart_of_isBlank (h : isBlank c) : isTagPart c = false := by
  have hpart : isTagPart c = ((decide (65 ≤ c.val ∧ c.val ≤ 90) || 97 ≤ c.val && c.val ≤ 122 ||
      48 ≤ c.val && c.val ≤ 57) || c == '_' || c == '/' || c == '-') := rfl
  rw [← Bool.not_eq_true]
  intro htag
  simp only [hpart, Bool.or_eq_true, Bool.and_eq_true, decide_eq_true_eq, beq_iff_eq,
    UInt32.le_iff_toNat_le] at htag
  simp only [isBlank, Bool.or_eq_true, Bool.and_eq_true, decide_eq_true_eq, beq_iff_eq,
    Char.toNat] at h
  rcases htag with ((htag | rfl) | rfl) | rfl
  · change ((65 ≤ c.val.toNat ∧ c.val.toNat ≤ 90) ∨ (97 ≤ c.val.toNat ∧ c.val.toNat ≤ 122)) ∨
      (48 ≤ c.val.toNat ∧ c.val.toNat ≤ 57) at htag
    omega
  all_goals
    revert h
    decide

theorem tagsFrom_nil (start : Bool) : tagsFrom start [] = [] := by rw [tagsFrom]

theorem tagsFrom_tag (h : (cs.takeWhile isTagPart) ≠ []) :
    tagsFrom true ('#' :: cs) =
      cs.takeWhile isTagPart :: tagsFrom false (cs.dropWhile isTagPart) := by
  rw [tagsFrom, if_pos (by simpa using h)]

theorem tagsFrom_cons {start : Bool} (h : ¬(start ∧ c = '#' ∧ cs.takeWhile isTagPart ≠ [])) :
    tagsFrom start (c :: cs) = tagsFrom (isBlank c) cs := by
  rw [tagsFrom, if_neg (by simpa using h)]

theorem tagsFrom_blank (start : Bool) (h : isBlank c) (cs : List Char) :
    tagsFrom start (c :: cs) = tagsFrom true cs := by
  rw [tagsFrom_cons, h]
  rintro ⟨-, rfl, -⟩
  exact absurd h (by decide)

/-- A text begins with a tag, or its first character only matters to whether a tag may follow. -/
theorem tag_induction {motive : Bool → List Char → Prop} (nil : ∀ start, motive start [])
    (tag : ∀ cs, cs.takeWhile isTagPart ≠ [] → motive false (cs.dropWhile isTagPart) →
      motive true ('#' :: cs))
    (other : ∀ (start : Bool) c cs, ¬(start ∧ c = '#' ∧ cs.takeWhile isTagPart ≠ []) →
      motive (isBlank c) cs → motive start (c :: cs))
    (start : Bool) (cs : List Char) : motive start cs := by
  induction hlength : cs.length using Nat.strongRecOn generalizing start cs with
  | _ length ih =>
    subst hlength
    cases cs with
    | nil => exact nil start
    | cons c cs =>
      by_cases h : start ∧ c = '#' ∧ cs.takeWhile isTagPart ≠ []
      · obtain ⟨rfl, rfl, htag⟩ := h
        refine tag cs htag (ih _ ?_ _ _ rfl)
        exact Nat.lt_succ_of_le (length_dropWhile_le isTagPart cs)
      · exact other start c cs h (ih cs.length (by simp) _ cs rfl)

/-- A tag does not run on over a blank. -/
theorem tagsFrom_append_blank (start : Bool) (p : List Char) (hc : isBlank c) (cs : List Char) :
    tagsFrom start (p ++ c :: cs) = tagsFrom start p ++ tagsFrom true cs := by
  have hpart := not_isTagPart_of_isBlank hc
  have htake (p : List Char) :
      (p ++ c :: cs).takeWhile isTagPart = p.takeWhile isTagPart := by
    induction p with
    | nil => simp [hpart]
    | cons d p ih => cases hd : isTagPart d <;> simp [hd, ih]
  have hdrop (p : List Char) :
      (p ++ c :: cs).dropWhile isTagPart = p.dropWhile isTagPart ++ c :: cs := by
    induction p with
    | nil => simp [hpart]
    | cons d p ih => cases hd : isTagPart d <;> simp [hd, ih]
  induction start, p using tag_induction with
  | nil start => rw [List.nil_append, tagsFrom_blank start hc, tagsFrom_nil, List.nil_append]
  | tag p htag ih =>
    rw [List.cons_append, tagsFrom_tag htag, tagsFrom_tag (by rwa [htake]), htake, hdrop, ih,
      List.cons_append]
  | other start d p hnot ih =>
    rw [List.cons_append, tagsFrom_cons hnot, tagsFrom_cons (by rwa [htake]), ih]

/-- A blank stands between two texts, or one of them is empty. -/
def Apart (p cs : List Char) : Prop := p.getLast?.all isBlank ∨ cs.head?.all isBlank

theorem tagsFrom_append (h : Apart p cs) :
    tagsFrom true (p ++ cs) = tagsFrom true p ++ tagsFrom true cs := by
  rcases h with h | h
  · cases p using List.reverseRecOn with
    | nil => rw [List.nil_append, tagsFrom_nil, List.nil_append]
    | append_singleton p c =>
      have hc : isBlank c := by simpa using h
      rw [List.append_assoc, List.singleton_append, tagsFrom_append_blank true p hc,
        tagsFrom_append_blank true p hc, tagsFrom_nil, List.append_nil]
  · cases cs with
    | nil => rw [List.append_nil, tagsFrom_nil, List.append_nil]
    | cons c cs =>
      have hc : isBlank c := h
      rw [tagsFrom_append_blank true p hc, tagsFrom_blank true hc]

theorem tagsFrom_of_blank {start : Bool} (h : ∀ c ∈ bs, isBlank c) : tagsFrom start bs = [] := by
  induction bs generalizing start with
  | nil => exact tagsFrom_nil start
  | cons c bs ih =>
    obtain ⟨hc, hbs⟩ := List.forall_mem_cons.1 h
    rw [tagsFrom_blank start hc, ih hbs]

theorem tagsFrom_of_notMem {start : Bool} (h : '#' ∉ cs) : tagsFrom start cs = [] := by
  induction cs generalizing start with
  | nil => exact tagsFrom_nil start
  | cons c cs ih =>
    obtain ⟨hne, hcs⟩ := List.ne_and_not_mem_of_not_mem_cons h
    rw [tagsFrom_cons fun htag => hne htag.2.1.symm, ih hcs]

/-! ## Tags outside code -/

theorem tagsIn_append (hp : '\x60' ∉ p) (h : Apart p cs) :
    tagsIn (p ++ cs) = tagsIn p ++ tagsIn cs := by
  have hapart : Apart p (withoutCode cs) := by
    refine h.imp_right fun hhead => ?_
    cases cs with
    | nil => rw [withoutCode_of_notMem (by simp)]; rfl
    | cons c cs =>
      have hc : isBlank c := hhead
      have htick : '\x60' ∉ [c] := by
        rw [List.mem_singleton]
        rintro rfl
        exact absurd hc (by decide)
      rwa [← List.singleton_append, withoutCode_prepend htick]
  rw [tagsIn, withoutCode_prepend hp, tagsFrom_append hapart, tagsIn, tagsIn,
    withoutCode_of_notMem hp]

theorem notMem_of_blank (h : ∀ c ∈ bs, isBlank c) : '\x60' ∉ bs := fun hmem =>
  absurd (h _ hmem) (by decide)

theorem tagsIn_of_blank (h : ∀ c ∈ bs, isBlank c) : tagsIn bs = [] := by
  rw [tagsIn, withoutCode_of_notMem (notMem_of_blank h), tagsFrom_of_blank h]

theorem tagsIn_blank_append (h : ∀ c ∈ bs, isBlank c) (cs : List Char) :
    tagsIn (bs ++ cs) = tagsIn cs := by
  have hapart : Apart bs cs := by
    left
    cases hlast : bs.getLast? with
    | none => rfl
    | some c => exact h c (List.mem_of_getLast? hlast)
  rw [tagsIn_append (notMem_of_blank h) hapart, tagsIn_of_blank h, List.nil_append]

theorem tagsIn_append_blank (h : ∀ c ∈ bs, isBlank c) (cs : List Char) :
    tagsIn (cs ++ bs) = tagsIn cs := by
  have hapart : Apart (withoutCode cs) bs := by
    right
    cases bs with
    | nil => rfl
    | cons c bs => exact h c List.mem_cons_self
  rw [tagsIn, withoutCode_append (notMem_of_blank h), tagsFrom_append hapart, tagsFrom_of_blank h,
    List.append_nil, tagsIn]

theorem tagsIn_trim (cs : List Char) : tagsIn (Text.trim cs) = tagsIn cs := by
  obtain ⟨bs, hbs, htrim⟩ := exists_trim cs
  conv => rhs; rw [htrim]
  rw [tagsIn_append_blank hbs, tagsIn_blank_append fun c hc => List.mem_takeWhile_imp hc]

end MarkdownVault.Note
