import MarkdownVault.Proofs.Note.FrontMatter
import MarkdownVault.Proofs.Vault.Completion

/-!
# The tags of a note are those of its body

Metadata and body are told apart in one way, and the block that is no place for tags is dropped in
another. The tags of a note are those of its body wherever the two leave the same text, apart from a
part that holds neither tags nor code.
-/

namespace MarkdownVault.Note

open Text

variable {xs ys part rest : List Char} {content body : String}

/-! ## The two bodies -/

/-- The text with plain line breaks and without blanks at its end. -/
def evenText (content : String) : List Char :=
  let plain := plainBreaks content.toList
  plain.takeWhile isBlank ++ Text.trim plain

/-- What is left of the text when the front matter is read off. -/
def behindFrontMatter (content : String) : List Char :=
  if (dropStart? ['-', '-', '-'] (trimStart content.toList)).isSome then
    match cutFrontMatter? (Text.trim (plainBreaks content.toList)) with
    | none => evenText content
    | some (metadata, rest) => match Yaml.valueOf .lenient (String.ofList metadata) with
      | .error .malformed => evenText content
      | _ => rest
  else evenText content

/-- What is left of the text when the block is dropped that is no place for tags. -/
def besideBlock (content : String) : List Char := dropBlock (evenText content)

theorem exists_evenText (content : String) :
    ∃ bs, (∀ c ∈ bs, isBlank c) ∧ plainBreaks content.toList = evenText content ++ bs :=
  exists_trim _

theorem tagsIn_evenText (content : String) : tagsIn (evenText content) = tagsIn content.toList := by
  obtain ⟨bs, hbs, heq⟩ := exists_evenText content
  rw [(Unreturned.plainBreaks content.toList).tagsIn, heq, tagsIn_append_blank hbs]

theorem tagsIn_besideBlock (content : String) :
    tagsIn (besideBlock content) = tagsIn (dropBlock content.toList) := by
  obtain ⟨bs, hbs, heq⟩ := exists_evenText content
  rw [tagsIn_dropBlock, (Unreturned.plainBreaks content.toList).behindBlock.tagsIn, heq,
    behindBlock_append hbs, tagsIn_append_blank hbs, besideBlock, tagsIn_dropBlock]

theorem tagsIn_behindFrontMatter {metadata : Properties}
    (h : frontMatterOf content = .ok (metadata, body)) :
    tagsIn (behindFrontMatter content) = tagsIn body.toList := by
  have hwhole := tagsIn_evenText content
  have htrimmed : tagsIn (evenText content) =
      tagsIn (Text.trim (plainBreaks content.toList)) := by
    rw [hwhole, tagsIn_trim, (Unreturned.plainBreaks content.toList).tagsIn]
  rw [frontMatterOf] at h
  rw [behindFrontMatter]
  cases hopens : (dropStart? ['-', '-', '-'] (trimStart content.toList)).isSome with
  | false =>
    simp only [hopens, Bool.not_false, if_true, Except.ok.injEq, Prod.mk.injEq] at h
    rw [if_neg Bool.false_ne_true, hwhole, h.2]
  | true =>
    simp only [hopens, Bool.not_true, Bool.false_eq_true, if_false] at h
    rw [if_pos rfl]
    cases hcut : cutFrontMatter? (Text.trim (plainBreaks content.toList)) with
    | none =>
      simp only [hcut, Except.ok.injEq, Prod.mk.injEq] at h ⊢
      rw [← h.2, String.toList_ofList, htrimmed]
    | some parts =>
      obtain ⟨block, rest⟩ := parts
      simp only [hcut] at h ⊢
      have hrest : tagsIn rest = tagsIn (String.ofList (Text.trim rest)).toList := by
        rw [String.toList_ofList, tagsIn_trim]
      generalize Yaml.valueOf .lenient (String.ofList block) = meaning at h ⊢
      cases meaning with
      | error fault =>
        cases fault with
        | malformed =>
          cases h
          exact hwhole
        | _ => cases h
      | ok v => cases v <;> cases h <;> exact hrest

theorem behindFrontMatter_suffix (content : String) :
    behindFrontMatter content <:+ evenText content := by
  rw [behindFrontMatter]
  split
  case isFalse => exact List.suffix_refl _
  case isTrue =>
    split
    case h_1 => exact List.suffix_refl _
    case h_2 hcut =>
      split
      · exact List.suffix_refl _
      · exact (cutFrontMatter?_suffix hcut).trans (List.suffix_append _ _)

/-! ## Where they agree -/

/-- A part in front of a text that makes no difference to its tags: it holds neither a tag nor
code, and the text goes on with a new word. -/
structure Quiet (part rest : List Char) : Prop where
  no_code : '\x60' ∉ part
  no_tag : tagsIn part = []
  apart : Apart part rest

theorem Quiet.tagsIn_append (h : Quiet part rest) : tagsIn (part ++ rest) = tagsIn rest := by
  rw [Note.tagsIn_append h.no_code h.apart, h.no_tag, List.nil_append]

/-- What the longer of two texts has in front of the shorter one; nothing if it is not longer. -/
def surplus (long short : List Char) : List Char := long.take (long.length - short.length)

theorem surplus_append (h : ys <:+ xs) : surplus xs ys ++ ys = xs := by
  obtain ⟨front, rfl⟩ := h
  rw [surplus, List.length_append, Nat.add_sub_cancel, List.take_left]

/-- What only one of the two takes for front matter is quiet. -/
structure BlocksAgree (content : String) : Prop where
  kept : Quiet (surplus (besideBlock content) (behindFrontMatter content))
    (behindFrontMatter content)
  dropped : Quiet (surplus (behindFrontMatter content) (besideBlock content)) (besideBlock content)

theorem BlocksAgree.tagsIn_eq (h : BlocksAgree content) :
    tagsIn (besideBlock content) = tagsIn (behindFrontMatter content) := by
  have hbeside : besideBlock content <:+ evenText content := dropBlock_suffix _
  rcases List.suffix_or_suffix_of_suffix hbeside (behindFrontMatter_suffix content)
    with hsuffix | hsuffix
  · rw [← h.dropped.tagsIn_append, surplus_append hsuffix]
  · rw [← h.kept.tagsIn_append, surplus_append hsuffix]

/-! ## Notes whose blocks agree -/

theorem quiet_nil (rest : List Char) : Quiet [] rest where
  no_code := by simp
  no_tag := tagsIn_of_blank (by simp)
  apart := .inl rfl

theorem surplus_of_suffix (h : xs <:+ ys) : surplus xs ys = [] := by
  rw [surplus, Nat.sub_eq_zero_of_le h.length_le, List.take_zero]

theorem surplus_left (front rest : List Char) : surplus (front ++ rest) rest = front := by
  rw [surplus, List.length_append, Nat.add_sub_cancel, List.take_left]

/-- The rest of a fence is quiet. -/
theorem quiet_of_dashes (hpart : ∀ c ∈ part, c = '-' ∨ isBlank c)
    (hrest : rest = [] ∨ ∃ more, rest = '\n' :: more) : Quiet part rest := by
  have hnot {c : Char} (hdash : c ≠ '-') (hblank : isBlank c = false) : c ∉ part := by
    intro hc
    rcases hpart c hc with heq | hblank'
    · exact hdash heq
    · rw [hblank] at hblank'
      cases hblank'
  have htick : '\x60' ∉ part := hnot (by decide) (by decide)
  refine ⟨htick, ?_, .inr ?_⟩
  · rw [tagsIn, withoutCode_of_notMem htick]
    exact tagsFrom_of_notMem (hnot (by decide) (by decide))
  · rcases hrest with rfl | ⟨more, rfl⟩ <;> rfl

section Dashes

variable {mark : List Char} (hmark : ∀ c ∈ mark, c = '-')
include hmark

theorem isSome_dropStart?_evenText (content : String) :
    (dropStart? mark (evenText content)).isSome = (dropStart? mark content.toList).isSome := by
  obtain ⟨bs, hbs, heq⟩ := exists_evenText content
  have hblanks : ∀ c ∈ mark, c ∉ bs := fun c hc hmem =>
    absurd (hmark c hc ▸ hbs c hmem) (by decide)
  rw [← isSome_dropStart?_plainBreaks hmark content.toList, heq, dropStart?_append hblanks,
    Option.isSome_map]

end Dashes

theorem blocksAgree_of_eq (h : besideBlock content = behindFrontMatter content) :
    BlocksAgree content := by
  constructor <;> rw [h, surplus_of_suffix (List.suffix_refl _)] <;> exact quiet_nil _

/-- A text without a fence at its start is all body. -/
theorem blocksAgree_of_plain
    (h : (dropStart? ['-', '-', '-'] (trimStart content.toList)).isSome = false) :
    BlocksAgree content := by
  refine blocksAgree_of_eq ?_
  have hstart : dropStart? ['-', '-', '-'] (evenText content) = none := by
    rw [← Option.not_isSome_iff_eq_none, isSome_dropStart?_evenText (by simp)]
    intro hopens
    rw [trimStart_of_dashes hopens, hopens] at h
    cases h
  rw [besideBlock, dropBlock, hstart, behindFrontMatter, h, if_neg Bool.false_ne_true]

/-- What a note with metadata between its fences is made of leaves nothing to disagree about, if it
begins with three to five dashes and its metadata hold no three. -/
theorem blocksAgree_of_fences {metadata : List Char}
    (hopens : (dropStart? ['-', '-', '-'] content.toList).isSome)
    (hshort : (dropStart? ['-', '-', '-', '-', '-', '-'] content.toList).isSome = false)
    (hcut : cutFrontMatter? (Text.trim (plainBreaks content.toList)) = some (metadata, rest))
    (hmeaning : Yaml.valueOf .lenient (String.ofList metadata) ≠ .error .malformed)
    (hclean : cutFirst? ['-', '-', '-'] metadata = none) : BlocksAgree content := by
  have heven : evenText content = Text.trim (plainBreaks content.toList) := by
    rw [← isSome_dropStart?_plainBreaks (by simp)] at hopens
    obtain ⟨inner, hinner⟩ := Option.isSome_iff_exists.1 hopens
    rw [evenText, eq_of_dropStart? hinner]
    exact List.nil_append _
  have hfront : behindFrontMatter content = rest := by
    rw [behindFrontMatter, trimStart_of_dashes hopens, if_pos hopens, hcut]
    dsimp only
    split
    case h_1 heq => exact absurd heq hmeaning
    case h_2 => rfl
  have hnone : dropStart? ['-', '-', '-', '-', '-', '-']
      (Text.trim (plainBreaks content.toList)) = none := by
    rw [← heven, ← Option.not_isSome_iff_eq_none, isSome_dropStart?_evenText (by simp), hshort]
    exact Bool.false_ne_true
  obtain ⟨more, hbehind, hmore, hends⟩ := behindBlock_of_fences hcut hnone hclean
  rw [← heven] at hbehind
  have hbeside : (∃ part, besideBlock content = part ++ rest ∧ ∀ c ∈ part, c = '-' ∨ isBlank c) ∨
      rest = '\n' :: besideBlock content := by
    rw [besideBlock]
    rcases dropBlock_cases (evenText content) with hdrop | hdrop
    · exact .inl ⟨more, hdrop.trans hbehind, hmore⟩
    · rw [hbehind] at hdrop
      cases more with
      | nil => exact .inr hdrop
      | cons c more =>
        exact .inl ⟨more, (List.cons.inj hdrop).2.symm, (List.forall_mem_cons.1 hmore).2⟩
  rcases hbeside with ⟨part, hpart, hdashes⟩ | hbreak
  · constructor <;> rw [hfront, hpart]
    · rw [surplus_left]
      exact quiet_of_dashes hdashes hends
    · rw [surplus_of_suffix (List.suffix_append part rest)]
      exact quiet_nil _
  · constructor <;> rw [hfront, hbreak]
    · rw [surplus_of_suffix (List.suffix_cons _ _)]
      exact quiet_nil _
    · rw [← List.singleton_append, surplus_left]
      exact ⟨by decide, tagsIn_of_blank (by simp [isBlank]), .inl rfl⟩

/-- The tags written in a body. -/
def bodyTags (body : String) : List String := (tagsIn body.toList).map String.ofList

theorem inlineTags_eq {metadata : Properties} (h : frontMatterOf content = .ok (metadata, body))
    (hagree : BlocksAgree content) : inlineTags content = bodyTags body := by
  have htags : tagsIn (dropBlock content.toList) = tagsIn body.toList := by
    rw [← tagsIn_besideBlock, hagree.tagsIn_eq, tagsIn_behindFrontMatter h]
  exact congrArg (List.map String.ofList) htags

/-- The tags of a note are those that its front matter declares and those in its body, where the
blocks agree. They do if no fence opens the note, and if its metadata stand between fences as they
are usually written. -/
theorem tagsOf_body (content : String) :
    (∀ metadata body, frontMatterOf content = .ok (metadata, body) → BlocksAgree content →
      tagsOf content metadata =
        (declaredTags metadata ++ (bodyTags body).map bareTag).eraseDups) ∧
    ((dropStart? ['-', '-', '-'] (trimStart content.toList)).isSome = false →
      BlocksAgree content) ∧
    ∀ metadata rest,
      (dropStart? ['-', '-', '-'] content.toList).isSome →
      (dropStart? ['-', '-', '-', '-', '-', '-'] content.toList).isSome = false →
      cutFrontMatter? (Text.trim (plainBreaks content.toList)) = some (metadata, rest) →
      Yaml.valueOf .lenient (String.ofList metadata) ≠ .error .malformed →
      Text.hasPart ['-', '-', '-'] metadata = false → BlocksAgree content := by
  refine ⟨fun metadata body h hagree => ?_, blocksAgree_of_plain, ?_⟩
  · rw [tagsOf, inlineTags_eq h hagree]
  · intro metadata rest hopens hshort hcut hmeaning hclean
    rw [Text.hasPart, Option.isSome_eq_false_iff, Option.isNone_iff_eq_none] at hclean
    exact blocksAgree_of_fences hopens hshort hcut hmeaning hclean

theorem valueOf_entry {text key value : String} {ts : List Yaml.Token}
    (htokens : Yaml.Token.ofText .lenient text.toList = .ok ts)
    (hnode : Yaml.Node.ofTokens ts =
      .ok (some (.mapping .map [(.scalar .text key, .scalar .text value)]))) :
    Yaml.valueOf .lenient text = .ok (.map [(.text key, .text value)]) := by
  refine (Yaml.valueOf_of_tokens htokens hnode).trans ?_
  simp only [Yaml.Node.value, Yaml.valueAt, Yaml.entriesAt, Yaml.merged, Yaml.ownEntries,
    Yaml.scalarOf]
  rfl

/-- The comment of the metadata holds no tag of the note, and neither does code. -/
theorem tagsOf_body_commented :
    frontMatterOf "---\ntags: a # and #b\n---\n#c \x60#d\x60" =
      .ok ([("tags", .text "a")], "#c \x60#d\x60") ∧
    tagsOf "---\ntags: a # and #b\n---\n#c \x60#d\x60" [("tags", .text "a")] = ["a", "c"] := by
  have htokens : Yaml.Token.ofText .lenient "\ntags: a # and #b\n".toList =
      .ok [.blockMappingStart, .key, .scalar "tags" true, .value, .scalar "a" true, .blockEnd] :=
    Yaml.tokens_of_chars rfl (by decide +kernel)
  have hvalue := valueOf_entry htokens rfl
  have hfenced : fenced? "---\ntags: a # and #b\n---\n#c \x60#d\x60" =
      some ("\ntags: a # and #b\n", "#c \x60#d\x60") := by decide +kernel
  have hparts := (frontMatterOf_of_fenced? hfenced).trans (congrArg (partsOf _ _) hvalue)
  obtain ⟨hbody, -, hfences⟩ := tagsOf_body "---\ntags: a # and #b\n---\n#c \x60#d\x60"
  have hmeaning : Yaml.valueOf .lenient (String.ofList "\ntags: a # and #b\n".toList) ≠
      .error .malformed := by
    rw [String.ofList_toList, hvalue]
    nofun
  have hagree := hfences "\ntags: a # and #b\n".toList "\n#c \x60#d\x60".toList
    (by decide +kernel) (by decide +kernel) (by decide +kernel) hmeaning (by decide +kernel)
  exact ⟨hparts, (hbody _ _ hparts hagree).trans (by decide +kernel)⟩

/-- A line feed in front of the fence, or three dashes in a value, bring in tags from the metadata.
Dashes that open no front matter take away a tag of the body. -/
theorem tags_misplaced :
    (frontMatterOf "\n---\na: b #x\n---\ny" = .ok ([("a", .text "b")], "y") ∧
      tagsOf "\n---\na: b #x\n---\ny" [("a", .text "b")] = ["x"]) ∧
    (frontMatterOf "---\na: b---c #x\n---\ny" = .ok ([("a", .text "b---c")], "y") ∧
      tagsOf "---\na: b---c #x\n---\ny" [("a", .text "b---c")] = ["x"]) ∧
    bodyTags "y" = [] ∧
    (frontMatterOf "---x #lost\n---\ny" = .ok ([], "---x #lost\n---\ny") ∧
      tagsOf "---x #lost\n---\ny" [] = []) ∧
    bodyTags "---x #lost\n---\ny" = ["lost"] := by
  have hblank : Yaml.Token.ofText .lenient "\na: b #x\n".toList =
      .ok [.blockMappingStart, .key, .scalar "a" true, .value, .scalar "b" true, .blockEnd] :=
    Yaml.tokens_of_chars rfl (by decide +kernel)
  have hdashes : Yaml.Token.ofText .lenient "\na: b---c #x\n".toList =
      .ok [.blockMappingStart, .key, .scalar "a" true, .value, .scalar "b---c" true, .blockEnd] :=
    Yaml.tokens_of_chars rfl (by decide +kernel)
  have hblankFenced : fenced? "\n---\na: b #x\n---\ny" = some ("\na: b #x\n", "y") := by
    decide +kernel
  have hdashesFenced : fenced? "---\na: b---c #x\n---\ny" = some ("\na: b---c #x\n", "y") := by
    decide +kernel
  refine ⟨⟨?_, by decide +kernel⟩, ⟨?_, by decide +kernel⟩, by decide +kernel,
    ⟨?_, by decide +kernel⟩, by decide +kernel⟩
  · rw [frontMatterOf_of_fenced? hblankFenced, valueOf_entry hblank rfl]
    rfl
  · rw [frontMatterOf_of_fenced? hdashesFenced, valueOf_entry hdashes rfl]
    rfl
  · have hcut : cutFrontMatter? (Text.trim (plainBreaks "---x #lost\n---\ny".toList)) = none := by
      decide +kernel
    have htext : String.ofList (Text.trim (plainBreaks "---x #lost\n---\ny".toList)) =
        "---x #lost\n---\ny" := by decide +kernel
    rw [frontMatterOf, hcut, htext]
    exact if_neg (by decide +kernel)

end MarkdownVault.Note
