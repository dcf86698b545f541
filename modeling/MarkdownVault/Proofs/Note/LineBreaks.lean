import MarkdownVault.Note.FrontMatter
import MarkdownVault.Proofs.Note.Tag

/-!
# Line breaks and tags

Carriage returns that stand before line feeds make no difference to what is found in a text: not
to where a mark stands, nor to what is code, nor to which tags there are.
-/

namespace MarkdownVault.Note

open Text

variable {a b p cs bs xs ys rest : List Char} {c : Char}

theorem cases_rel {α : Type} {r : α → α → Prop} {o o' : Option α} (h : Option.Rel r o o') :
    o = none ∧ o' = none ∨ ∃ x y, o = some x ∧ o' = some y ∧ r x y := by
  cases h with
  | none => exact .inl ⟨rfl, rfl⟩
  | some h => exact .inr ⟨_, _, rfl, rfl, h⟩

/-- The second text is the first one without some carriage returns that stand before line feeds. -/
inductive Unreturned : List Char → List Char → Prop
  | nil : Unreturned [] []
  | keep (c : Char) {xs ys : List Char} : Unreturned xs ys → Unreturned (c :: xs) (c :: ys)
  | drop {xs ys : List Char} : Unreturned xs ys → Unreturned ('\r' :: '\n' :: xs) ('\n' :: ys)

namespace Unreturned

theorem plainBreaks (cs : List Char) : Unreturned cs (plainBreaks cs) := by
  induction cs using plainBreaks.induct with
  | case1 cs ih =>
    rw [Note.plainBreaks]
    exact .drop ih
  | case2 c cs hne ih =>
    rw [Note.plainBreaks]
    · exact .keep c ih
    · exact hne
  | case3 => exact .nil

theorem append (h : Unreturned a xs) (h' : Unreturned b ys) : Unreturned (a ++ b) (xs ++ ys) := by
  induction h with
  | nil => exact h'
  | keep c h ih => exact .keep c ih
  | drop h ih => exact .drop ih

theorem mem_iff (h : Unreturned xs ys) (hc : c ≠ '\r') : c ∈ xs ↔ c ∈ ys := by
  induction h with
  | nil => exact Iff.rfl
  | keep d h ih => rw [List.mem_cons, List.mem_cons, ih]
  | drop h ih => rw [List.mem_cons, List.mem_cons, List.mem_cons, ih, or_iff_right hc]

/-- A character other than line breaks splits both texts. -/
theorem split (hr : c ≠ '\r') (hn : c ≠ '\n') (h : Unreturned (a ++ c :: rest) ys) :
    ∃ a' rest', ys = a' ++ c :: rest' ∧ Unreturned a a' ∧ Unreturned rest rest' := by
  generalize hxs : a ++ c :: rest = xs at h
  induction h generalizing a with
  | nil => simp at hxs
  | keep d h ih =>
    cases a with
    | nil =>
      cases hxs
      exact ⟨[], _, rfl, .nil, h⟩
    | cons e a =>
      cases hxs
      obtain ⟨a', rest', rfl, ha, hrest⟩ := ih rfl
      exact ⟨d :: a', rest', rfl, .keep d ha, hrest⟩
  | drop h ih =>
    match a with
    | [] =>
      cases hxs
      exact absurd rfl hr
    | [d] =>
      cases hxs
      exact absurd rfl hn
    | d :: e :: a =>
      cases hxs
      obtain ⟨a', rest', rfl, ha, hrest⟩ := ih rfl
      exact ⟨'\n' :: a', rest', rfl, .drop ha, hrest⟩

/-! ## Marks -/

section Mark

variable {mark : List Char} (hmark : ∀ m ∈ mark, m ≠ '\r' ∧ m ≠ '\n')
include hmark

theorem dropStart? (h : Unreturned xs ys) :
    Option.Rel Unreturned (Text.dropStart? mark xs) (Text.dropStart? mark ys) := by
  induction mark generalizing xs ys with
  | nil => exact .some h
  | cons m mark ih =>
    obtain ⟨⟨hr, hn⟩, hrest⟩ := List.forall_mem_cons.1 hmark
    cases h with
    | nil => exact .none
    | keep c h =>
      rw [dropStart?_cons, dropStart?_cons]
      by_cases hc : m = c
      · rw [if_pos hc, if_pos hc]
        exact ih hrest h
      · rw [if_neg hc, if_neg hc]
        exact .none
    | drop h =>
      rw [dropStart?_cons, dropStart?_cons, if_neg hr, if_neg hn]
      exact .none

theorem cutFirst? (hne : mark ≠ []) (h : Unreturned xs ys) :
    Option.Rel (fun p q => Unreturned p.1 q.1 ∧ Unreturned p.2 q.2) (Text.cutFirst? mark xs)
      (Text.cutFirst? mark ys) := by
  have hbreak {c : Char} (hc : c = '\r' ∨ c = '\n') (cs : List Char) :
      Text.dropStart? mark (c :: cs) = none := by
    obtain ⟨m, mark, rfl⟩ := List.exists_cons_of_ne_nil hne
    obtain ⟨hr, hn⟩ := hmark m List.mem_cons_self
    rw [dropStart?_cons, if_neg]
    rcases hc with rfl | rfl
    · exact hr
    · exact hn
  induction h with
  | nil =>
    rw [cutFirst?_of_disjoint hne (by simp)]
    exact .none
  | keep c h ih =>
    rw [cutFirst?_cons, cutFirst?_cons]
    obtain ⟨hx, hy⟩ | ⟨x, y, hx, hy, hrest⟩ := cases_rel (dropStart? hmark (.keep c h)) <;>
      rw [hx, hy]
    · obtain ⟨hx, hy⟩ | ⟨x, y, hx, hy, hbefore, hafter⟩ := cases_rel ih <;> rw [hx, hy]
      · exact .none
      · exact .some ⟨.keep c hbefore, hafter⟩
    · exact .some ⟨.nil, hrest⟩
  | drop h ih =>
    rw [cutFirst?_cons, cutFirst?_cons, cutFirst?_cons, hbreak (.inl rfl), hbreak (.inr rfl),
      hbreak (.inr rfl)]
    obtain ⟨hx, hy⟩ | ⟨x, y, hx, hy, hbefore, hafter⟩ := cases_rel ih <;> rw [hx, hy]
    · exact .none
    · exact .some ⟨.drop hbefore, hafter⟩

end Mark

/-! ## Code -/

theorem dropFenced (h : Unreturned xs ys) : Unreturned (dropFenced xs) (dropFenced ys) := by
  have hfence {as bs : List Char} (h : Unreturned as bs) :=
    cases_rel (@cutFirst? as bs fence (by simp [fence]) (by simp [fence]) h)
  induction hlength : xs.length using Nat.strongRecOn generalizing xs ys with
  | _ length ih =>
    subst hlength
    rw [dropFenced_eq, dropFenced_eq ys]
    obtain ⟨hx, hy⟩ | ⟨⟨before, rest⟩, ⟨before', rest'⟩, hx, hy, hbefore, hrest⟩ := hfence h
    · simpa only [hx, hy] using h
    obtain ⟨hx', hy'⟩ | ⟨⟨code, after⟩, ⟨code', after'⟩, hx', hy', -, hafter⟩ := hfence hrest
    · simpa only [hx, hy, hx', hy'] using h
    · have hlength : before.length + 3 + rest.length = xs.length := length_cutFirst? hx
      have hlength' : code.length + 3 + after.length = rest.length := length_cutFirst? hx'
      simp only [hx, hy, hx', hy']
      exact hbefore.append (ih after.length (by omega) hafter rfl)

theorem exists_tail (h : Unreturned (c :: xs) ys) (hr : c ≠ '\r') :
    ∃ ys', ys = c :: ys' ∧ Unreturned xs ys' := by
  cases h with
  | keep _ h => exact ⟨_, rfl, h⟩
  | drop h => exact absurd rfl hr

theorem dropCodeSpans (h : Unreturned xs ys) :
    Unreturned (dropCodeSpans xs) (dropCodeSpans ys) := by
  have htick : '\x60' ≠ '\r' := by decide
  induction xs using span_induction generalizing ys with
  | plain xs hxs =>
    rwa [dropCodeSpans_of_notMem hxs, dropCodeSpans_of_notMem ((h.mem_iff htick).not.1 hxs)]
  | other c xs hc ih =>
    cases h with
    | keep _ h =>
      rw [dropCodeSpans_cons_of_ne hc, dropCodeSpans_cons_of_ne hc]
      exact .keep c (ih h)
    | drop h =>
      have hboth := ih (.keep '\n' h)
      rw [dropCodeSpans_cons_of_ne (by decide), dropCodeSpans_cons_of_ne (by decide)] at hboth
      obtain ⟨rest, heq, hrest⟩ := hboth.exists_tail (by decide)
      cases heq
      rw [dropCodeSpans_cons_of_ne hc, dropCodeSpans_cons_of_ne (by decide),
        dropCodeSpans_cons_of_ne (by decide)]
      exact .drop hrest
  | unclosed xs hxs =>
    obtain ⟨ys, rfl, hrest⟩ := h.exists_tail htick
    rwa [dropCodeSpans_unclosed hxs, dropCodeSpans_unclosed ((hrest.mem_iff htick).not.1 hxs)]
  | pair rest ih =>
    obtain ⟨ys, rfl, hsecond⟩ := h.exists_tail htick
    obtain ⟨ys, rfl, -⟩ := hsecond.exists_tail htick
    rw [dropCodeSpans_pair, dropCodeSpans_pair]
    exact .keep _ (ih hsecond)
  | span a rest ha hnone ih =>
    obtain ⟨ys, rfl, hinside⟩ := h.exists_tail htick
    obtain ⟨a', rest', rfl, hcode, hrest⟩ := hinside.split htick (by decide)
    have ha' : a' ≠ [] := by
      rintro rfl
      cases hcode
      exact ha rfl
    rw [dropCodeSpans_span ha hnone, dropCodeSpans_span ha' ((hcode.mem_iff htick).not.1 hnone)]
    exact ih hrest

/-! ## Tags -/

theorem takeWhile_isTagPart (h : Unreturned xs ys) :
    xs.takeWhile isTagPart = ys.takeWhile isTagPart ∧
      Unreturned (xs.dropWhile isTagPart) (ys.dropWhile isTagPart) := by
  induction h with
  | nil => exact ⟨rfl, .nil⟩
  | keep c h ih =>
    cases hc : isTagPart c with
    | true => simpa [hc] using ih
    | false => simpa [hc] using Unreturned.keep c h
  | drop h ih =>
    have hr : isTagPart '\r' = false := by decide
    have hn : isTagPart '\n' = false := by decide
    simpa [hr, hn] using Unreturned.drop h

theorem tagsFrom {start : Bool} (h : Unreturned xs ys) : tagsFrom start xs = tagsFrom start ys := by
  induction start, xs using tag_induction generalizing ys with
  | nil start =>
    cases h
    rfl
  | tag xs htag ih =>
    obtain ⟨ys, rfl, hrest⟩ := h.exists_tail (by decide)
    obtain ⟨htake, hdrop⟩ := hrest.takeWhile_isTagPart
    rw [tagsFrom_tag htag, tagsFrom_tag (htake ▸ htag), ih hdrop, htake]
  | other start c xs hnot ih =>
    cases h with
    | keep _ h =>
      rw [tagsFrom_cons hnot, tagsFrom_cons (h.takeWhile_isTagPart.1 ▸ hnot), ih h]
    | drop h =>
      rw [tagsFrom_cons hnot, ih (.keep '\n' h), tagsFrom_blank _ (by decide),
        tagsFrom_blank start (by decide)]

theorem tagsIn (h : Unreturned xs ys) : tagsIn xs = tagsIn ys :=
  h.dropFenced.dropCodeSpans.tagsFrom

end Unreturned

end MarkdownVault.Note
