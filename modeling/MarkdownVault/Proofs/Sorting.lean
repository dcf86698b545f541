import Mathlib.Data.List.Basic
import Mathlib.Order.Compare
import MarkdownVault.Proofs.Result
import MarkdownVault.Sorting

/-!
# Sorting keeps everything and is stable

As long as no comparison fails, sorting gives back the same items, in whatever way they compare.
Where the comparison is an order, they come out in that order, and items that are equal in it stand
as they stood.
-/

namespace MarkdownVault.Sorting

variable {α ε : Type} {less : α → α → Except ε Bool} {lt : α → α → Bool}

/-! ## Insertion -/

/-- An item goes between two parts of the list. If it is less than all items behind the first one
that it is less than, these are the items of the second part. -/
theorem exists_insert (x : α) {xs : List α} (hless : ∀ y ∈ xs, less x y = .ok (lt x y)) :
    ∃ before after, xs = before ++ after ∧ insert less x xs = .ok (before ++ x :: after) ∧
      (xs.Pairwise (fun a b => lt x a → lt x b) →
        (∀ y ∈ before, lt x y = false) ∧ ∀ y ∈ after, lt x y = true) := by
  induction hlength : xs.length using Nat.strongRecOn generalizing xs with
  | _ length ih =>
    subst hlength
    have hsplit := List.take_append_drop (xs.length / 2) xs
    rw [insert]
    cases hdrop : xs.drop (xs.length / 2) with
    | nil =>
      have hnil : xs = [] := by
        rw [List.drop_eq_nil_iff] at hdrop
        exact List.eq_nil_of_length_eq_zero (by omega)
      subst hnil
      exact ⟨[], [], rfl, rfl, by simp⟩
    | cons middle rest =>
      have hlengths := congrArg List.length hdrop
      simp only [List.length_drop, List.length_cons] at hlengths
      rw [hdrop] at hsplit
      generalize xs.take (xs.length / 2) = front at hsplit
      subst hsplit
      obtain ⟨hfront, hmiddle, hrest⟩ :
          (∀ y ∈ front, less x y = .ok (lt x y)) ∧ less x middle = .ok (lt x middle) ∧
            ∀ y ∈ rest, less x y = .ok (lt x y) := by simpa [or_imp, forall_and] using hless
      have hmono (h : (front ++ middle :: rest).Pairwise (fun a b => lt x a → lt x b)) :=
        List.pairwise_append.1 h
      simp only [hmiddle]
      cases hx : lt x middle with
      | true =>
        obtain ⟨before, after, rfl, hinsert, hsorted⟩ := ih front.length (by simp) hfront rfl
        refine ⟨before, after ++ middle :: rest, by simp, ?_, ?_⟩
        · simp [hinsert, bind, Except.bind, pure, Except.pure]
        · intro h
          obtain ⟨hfirst, hsecond, hcross⟩ := hmono h
          obtain ⟨hbefore, hafter⟩ := hsorted hfirst
          refine ⟨hbefore, ?_⟩
          simp only [List.mem_append, List.mem_cons]
          rintro y (hy | rfl | hy)
          · exact hafter y hy
          · exact hx
          · exact (List.pairwise_cons.1 hsecond).1 y hy hx
      | false =>
        obtain ⟨before, after, rfl, hinsert, hsorted⟩ := ih rest.length (by simp; omega) hrest rfl
        refine ⟨front ++ middle :: before, after, by simp, ?_, ?_⟩
        · simp [hinsert, bind, Except.bind, pure, Except.pure]
        · intro h
          obtain ⟨hfirst, hsecond, hcross⟩ := hmono h
          obtain ⟨hbefore, hafter⟩ := hsorted (List.pairwise_cons.1 hsecond).2
          refine ⟨?_, hafter⟩
          simp only [List.mem_append, List.mem_cons]
          rintro y (hy | rfl | hy)
          · -- What the item is less than in front, it is less than in the middle.
            rw [← Bool.not_eq_true]
            intro hlt
            simp [hcross y hy middle (by simp) hlt] at hx
          · exact hx
          · exact hbefore y hy

/-! ## The front -/

/-- The run that is taken stands at the start, each item to the one before it as asked. -/
theorem exists_run (descending : Bool) {last : α} (taken : List α) {xs : List α}
    (hless : ∀ a ∈ last :: xs, ∀ b ∈ last :: xs, less a b = .ok (lt a b)) :
    ∃ more rest, xs = more ++ rest ∧
      run less descending last taken xs = .ok (more.reverse ++ last :: taken, rest) ∧
      (last :: more).IsChain (fun a b => lt b a = descending) := by
  induction xs generalizing last taken with
  | nil => exact ⟨[], [], rfl, rfl, .singleton last⟩
  | cons x xs ih =>
    have hx : less x last = .ok (lt x last) := hless x (by simp) last (by simp)
    by_cases hrun : lt x last = descending
    · obtain ⟨more, rest, rfl, hmore, hchain⟩ := @ih x (last :: taken)
        (fun a ha b hb => hless a (List.mem_cons_of_mem _ ha) b (List.mem_cons_of_mem _ hb))
      refine ⟨x :: more, rest, rfl, ?_, .cons_cons hrun hchain⟩
      simp [run, hx, hrun, hmore, bind, Except.bind]
    · refine ⟨[], x :: xs, rfl, ?_, .singleton last⟩
      simp [run, hx, hrun, bind, Except.bind, pure, Except.pure]

theorem exists_front {xs : List α} (hless : ∀ a ∈ xs, ∀ b ∈ xs, less a b = .ok (lt a b)) :
    ∃ first rest, xs = first ++ rest ∧
      (front less xs = .ok (first, rest) ∧ first.IsChain (fun a b => lt b a = false) ∨
        front less xs = .ok (first.reverse, rest) ∧ first.IsChain (fun a b => lt b a = true)) := by
  match xs with
  | [] => exact ⟨[], [], rfl, .inl ⟨rfl, .nil⟩⟩
  | [x] => exact ⟨[x], [], rfl, .inl ⟨rfl, .singleton x⟩⟩
  | x :: y :: xs =>
    have hy : less y x = .ok (lt y x) := hless y (by simp) x (by simp)
    obtain ⟨more, rest, rfl, hrun, hchain⟩ := exists_run (lt y x) [x]
      (fun a ha b hb => hless a (List.mem_cons_of_mem _ ha) b (List.mem_cons_of_mem _ hb))
    refine ⟨x :: y :: more, rest, rfl, ?_⟩
    cases hdescending : lt y x <;> rw [hdescending] at hrun hchain
    · refine .inl ⟨?_, .cons_cons hdescending hchain⟩
      simp [front, hy, hdescending, hrun, bind, Except.bind, pure, Except.pure]
    · refine .inr ⟨?_, .cons_cons hdescending hchain⟩
      simp [front, hy, hdescending, hrun, bind, Except.bind, pure, Except.pure]

/-! ## Sorting -/

/-- What holds of the items at the front, taken as they are or in reverse, and still holds when one
more is inserted, holds of the sorted list. -/
theorem exists_sort {motive : List α → List α → Prop} {xs : List α}
    (hless : ∀ a ∈ xs, ∀ b ∈ xs, less a b = .ok (lt a b))
    (ascending : ∀ first : List α, first.IsChain (fun a b => lt b a = false) → motive first first)
    (descending : ∀ first : List α, first.IsChain (fun a b => lt b a = true) →
      motive first first.reverse)
    (inserted : ∀ done x before after, motive done (before ++ after) →
      ((before ++ after).Pairwise (fun a b => lt x a → lt x b) →
        (∀ y ∈ before, lt x y = false) ∧ ∀ y ∈ after, lt x y = true) →
      motive (done ++ [x]) (before ++ x :: after)) :
    ∃ ys, sort less xs = .ok ys ∧ motive xs ys := by
  have hfold : ∀ rest done sorted, (∀ a ∈ sorted ++ rest, a ∈ xs) → motive done sorted →
      ∃ ys, rest.foldlM (fun sorted x => insert less x sorted) sorted = .ok ys ∧
        motive (done ++ rest) ys := by
    intro rest
    induction rest with
    | nil => exact fun done sorted _ h => ⟨sorted, rfl, by simpa using h⟩
    | cons x rest ih =>
      intro done sorted hmem h
      obtain ⟨before, after, rfl, hinsert, hplace⟩ := exists_insert x
        fun y (hy : y ∈ sorted) => hless x (hmem x (by simp)) y (hmem y (by simp [hy]))
      obtain ⟨ys, hys, hmotive⟩ := ih (done ++ [x]) (before ++ x :: after)
        (fun a ha => hmem a (by simp at ha ⊢; tauto)) (inserted done x before after h hplace)
      refine ⟨ys, ?_, by simpa using hmotive⟩
      simpa only [List.foldlM_cons, hinsert, bind, Except.bind] using hys
  obtain ⟨first, rest, rfl, ⟨hfront, hchain⟩ | ⟨hfront, hchain⟩⟩ := exists_front hless
  · obtain ⟨ys, hys, h⟩ := hfold rest first first (by simp) (ascending first hchain)
    exact ⟨ys, by simpa only [sort, hfront, bind, Except.bind] using hys, h⟩
  · obtain ⟨ys, hys, h⟩ := hfold rest first first.reverse (by simp) (descending first hchain)
    exact ⟨ys, by simpa only [sort, hfront, bind, Except.bind] using hys, h⟩

theorem perm_insert {done before after : List α} (h : (before ++ after).Perm done) (x : α) :
    (before ++ x :: after).Perm (done ++ [x]) :=
  calc (before ++ x :: after).Perm (x :: (before ++ after)) := List.perm_middle
    _ |>.Perm (x :: done) := h.cons x
    _ |>.Perm (done ++ [x]) := (List.perm_append_singleton x done).symm

/-- A list sorted by a comparison, with the items that compare equal in the order in which they
stood. -/
structure StablySorted (cmp : α → α → Ordering) (xs ys : List α) : Prop where
  perm : ys.Perm xs
  sorted : ys.Pairwise fun a b => (cmp a b).isLE
  stable : ∀ x, ys.filter (fun y => cmp x y == .eq) = xs.filter (fun y => cmp x y == .eq)

section Order

open Std

variable {cmp : α → α → Ordering} [TransCmp cmp]

/-- Of a list in strict order at most one item is equal to a given one, so its direction is of no
matter to the equal ones. -/
theorem filter_eq_of_strict {xs : List α} (h : xs.Pairwise fun a b => cmp b a = .lt) (x : α) :
    xs.reverse.filter (fun y => cmp x y == .eq) = xs.filter (fun y => cmp x y == .eq) := by
  induction xs with
  | nil => rfl
  | cons a xs ih =>
    obtain ⟨hfirst, hrest⟩ := List.pairwise_cons.1 h
    rw [List.reverse_cons, List.filter_append, ih hrest]
    cases ha : cmp x a == .eq with
    | false => simp [ha]
    | true =>
      have hnone : xs.filter (fun y => cmp x y == .eq) = [] := by
        rw [List.filter_eq_nil_iff]
        intro y hy hxy
        rw [beq_iff_eq] at ha hxy
        have hlt : cmp y x = .lt := (TransCmp.congr_right ha).trans (hfirst y hy)
        rw [@OrientedCmp.eq_swap _ cmp, hxy] at hlt
        cases hlt
      simp [ha, hnone]

theorem StablySorted.insert {done before after : List α} {x : α}
    (h : StablySorted cmp done (before ++ after)) (hbefore : ∀ y ∈ before, cmp x y ≠ .lt)
    (hafter : ∀ y ∈ after, cmp x y = .lt) :
    StablySorted cmp (done ++ [x]) (before ++ x :: after) where
  perm := perm_insert h.perm x
  sorted := by
    obtain ⟨hfirst, hsecond, hcross⟩ := List.pairwise_append.1 h.sorted
    refine List.pairwise_append.2 ⟨hfirst, List.pairwise_cons.2 ⟨?_, hsecond⟩, ?_⟩
    · intro y hy
      simp [hafter y hy]
    · simp only [List.mem_cons]
      rintro a ha b (rfl | hb)
      · rw [@OrientedCmp.eq_swap _ cmp]
        cases hxa : cmp b a with
        | lt => exact absurd hxa (hbefore a ha)
        | eq => rfl
        | gt => rfl
      · exact hcross a ha b hb
  stable := by
    intro z
    have hstable := h.stable z
    rw [List.filter_append] at hstable
    rw [List.filter_append, List.filter_append, ← hstable, List.filter_cons]
    cases hz : cmp z x == .eq with
    | false => simp [hz]
    | true =>
      have hnone : after.filter (fun y => cmp z y == .eq) = [] := by
        rw [List.filter_eq_nil_iff]
        intro y hy hzy
        rw [beq_iff_eq] at hz hzy
        have hlt : cmp z y = .lt := (TransCmp.congr_left hz).trans (hafter y hy)
        rw [hzy] at hlt
        cases hlt
      simp [hz, hnone]

/-- Sorting by an order is stable sorting. -/
theorem exists_sort_stable {xs : List α}
    (hless : ∀ a ∈ xs, ∀ b ∈ xs, less a b = .ok (cmp a b == .lt)) :
    ∃ ys, sort less xs = .ok ys ∧ StablySorted cmp xs ys := by
  refine exists_sort hless ?_ ?_ ?_
  · intro first hchain
    refine ⟨.refl first, ?_, fun _ => rfl⟩
    have : Trans (fun a b => (cmp a b).isLE) (fun a b => (cmp a b).isLE)
        (fun a b => ((cmp a b).isLE : Prop)) := ⟨TransCmp.isLE_trans⟩
    refine List.isChain_iff_pairwise.1 (hchain.imp ?_)
    intro a b hab
    rw [@OrientedCmp.eq_swap _ cmp]
    cases hba : cmp b a <;> simp_all
  · intro first hchain
    have : Trans (fun a b => cmp b a = .lt) (fun a b => cmp b a = .lt)
        (fun a b => cmp b a = .lt) := ⟨fun hab hbc => TransCmp.lt_trans hbc hab⟩
    have hstrict : first.Pairwise fun a b => cmp b a = .lt :=
      List.isChain_iff_pairwise.1 (hchain.imp fun a b hab => by simpa using hab)
    refine ⟨first.reverse_perm, ?_, filter_eq_of_strict hstrict⟩
    rw [List.pairwise_reverse]
    exact hstrict.imp fun hab => by simp [hab]
  · intro done x before after h hplace
    have hmono : (before ++ after).Pairwise fun a b => cmp x a == .lt → cmp x b == .lt := by
      refine h.sorted.imp ?_
      intro a b hab hxa
      rw [beq_iff_eq] at hxa ⊢
      exact TransCmp.lt_of_lt_of_isLE hxa hab
    obtain ⟨hbefore, hafter⟩ := hplace hmono
    exact h.insert (fun y hy => by simpa using hbefore y hy) (fun y hy => by simpa using hafter y hy)

end Order

/-! ## Comparisons that may fail -/

theorem perm_of_insert {x : α} {xs ys : List α} (h : insert less x xs = .ok ys) :
    ys.Perm (x :: xs) := by
  induction hlength : xs.length using Nat.strongRecOn generalizing xs ys with
  | _ length ih =>
    subst hlength
    have hsplit := List.take_append_drop (xs.length / 2) xs
    rw [insert] at h
    split at h
    case h_1 hdrop =>
      have hnil : xs = [] := by
        rw [List.drop_eq_nil_iff] at hdrop
        exact List.eq_nil_of_length_eq_zero (by omega)
      cases h
      rw [hnil]
    case h_2 middle after hdrop =>
      rw [hdrop] at hsplit
      generalize xs.take (xs.length / 2) = before at h hsplit
      subst hsplit
      obtain ⟨isLess, -, h⟩ := bind_eq_ok_iff.1 h
      split at h
      · obtain ⟨zs, hzs, h⟩ := bind_eq_ok_iff.1 h
        cases h
        exact (ih before.length (by simp) hzs rfl).append_right (middle :: after)
      · obtain ⟨zs, hzs, h⟩ := bind_eq_ok_iff.1 h
        cases h
        have hperm : (middle :: zs).Perm (x :: middle :: after) :=
          ((ih after.length (by simp; omega) hzs rfl).cons middle).trans (.swap x middle after)
        exact (hperm.append_left before).trans List.perm_middle

theorem perm_of_run {descending : Bool} {last : α} {taken xs first rest : List α}
    (h : run less descending last taken xs = .ok (first, rest)) :
    (first ++ rest).Perm (last :: taken ++ xs) := by
  induction xs generalizing last taken with
  | nil =>
    cases h
    exact .refl _
  | cons x xs ih =>
    obtain ⟨isLess, -, h⟩ := bind_eq_ok_iff.1 h
    split at h
    · exact (ih h).trans List.perm_middle.symm
    · cases h
      exact .refl _

theorem perm_of_front {xs first rest : List α} (h : front less xs = .ok (first, rest)) :
    (first ++ rest).Perm xs := by
  match xs with
  | [] => cases h; exact .refl _
  | [x] => cases h; exact .refl _
  | x :: y :: xs =>
    obtain ⟨descending, -, h⟩ := bind_eq_ok_iff.1 h
    obtain ⟨⟨taken, rest⟩, hrun, h⟩ := bind_eq_ok_iff.1 h
    cases h
    have hperm : (taken ++ rest).Perm (x :: y :: xs) :=
      (perm_of_run hrun).trans (List.Perm.swap x y xs)
    cases descending with
    | true => exact hperm
    | false => exact (taken.reverse_perm.append_right rest).trans hperm

/-- Whatever is compared with whatever, what comes out is what went in. -/
theorem perm_of_sort {xs ys : List α} (h : sort less xs = .ok ys) : ys.Perm xs := by
  obtain ⟨⟨sorted, rest⟩, hfront, h⟩ := bind_eq_ok_iff.1 h
  have hfold : ∀ rest sorted : List α,
      rest.foldlM (fun sorted x => insert less x sorted) sorted = .ok ys →
        ys.Perm (sorted ++ rest) := by
    intro rest
    induction rest with
    | nil =>
      intro sorted h
      cases h
      rw [List.append_nil]
    | cons x rest ih =>
      intro sorted h
      obtain ⟨zs, hzs, h⟩ := bind_eq_ok_iff.1 h
      refine (ih zs h).trans ?_
      exact ((perm_of_insert hzs).append_right rest).trans List.perm_middle.symm
  exact (hfold rest sorted h).trans (perm_of_front hfront)

/-! ## Comparisons of the items of a list -/

/-- One item may stand before the other. -/
def NoLater (cmp : α → α → Except ε Ordering) (a b : α) : Prop := ∃ o, cmp a b = .ok o ∧ o.isLE

/-- On the items of a list, a comparison never fails and is a total preorder. -/
structure PreorderOn (cmp : α → α → Except ε Ordering) (xs : List α) : Prop where
  refl : ∀ a ∈ xs, cmp a a = .ok .eq
  swap : ∀ a ∈ xs, ∀ b ∈ xs, ∃ o, cmp a b = .ok o ∧ cmp b a = .ok o.swap
  trans : ∀ a ∈ xs, ∀ b ∈ xs, ∀ c ∈ xs, NoLater cmp a b → NoLater cmp b c → NoLater cmp a c

namespace PreorderOn

variable {cmp : α → α → Except ε Ordering} {xs : List α} (h : PreorderOn cmp xs)
include h

theorem gt_of_lt {a b : α} (ha : a ∈ xs) (hb : b ∈ xs) (hab : cmp a b = .ok .lt) :
    cmp b a = .ok .gt := by
  obtain ⟨o, ho, hswap⟩ := h.swap a ha b hb
  cases hab.symm.trans ho
  exact hswap

theorem lt_of_lt_of_noLater {a b c : α} (ha : a ∈ xs) (hb : b ∈ xs) (hc : c ∈ xs)
    (hab : cmp a b = .ok .lt) (hbc : NoLater cmp b c) : cmp a c = .ok .lt := by
  obtain ⟨o, ho, hle⟩ := h.trans a ha b hb c hc ⟨.lt, hab, rfl⟩ hbc
  cases o with
  | lt => exact ho
  | gt => cases hle
  | eq =>
    -- If they were equal, the last one would lead back from the second to the first.
    obtain ⟨o, hac, hca⟩ := h.swap a ha c hc
    cases ho.symm.trans hac
    obtain ⟨o, hba, hle⟩ := h.trans b hb c hc a ha hbc ⟨.eq, hca, rfl⟩
    cases (h.gt_of_lt ha hb hab).symm.trans hba
    cases hle

/-- Items can be numbered so that comparing them is comparing their numbers: an item has as its
number how many items stand before it. -/
theorem exists_places :
    ∃ place : α → Nat, ∀ a ∈ xs, ∀ b ∈ xs, cmp a b = .ok (compare (place a) (place b)) := by
  let before (a b : α) : Bool := (cmp a b).toOption == some .lt
  have hbefore {a b : α} : before a b ↔ cmp a b = .ok .lt := by
    cases hab : cmp a b <;> simp [before, hab, Except.toOption]
  let place (a : α) : Nat := xs.countP (before · a)
  have hmono : ∀ a ∈ xs, ∀ b ∈ xs, NoLater cmp a b → ∀ c ∈ xs, before c a → before c b := by
    intro a ha b hb hab c hc hca
    rw [hbefore] at hca ⊢
    exact h.lt_of_lt_of_noLater hc ha hb hca hab
  have hle : ∀ a ∈ xs, ∀ b ∈ xs, NoLater cmp a b → place a ≤ place b := fun a ha b hb hab =>
    List.countP_mono_left (hmono a ha b hb hab)
  have hlt : ∀ a ∈ xs, ∀ b ∈ xs, cmp a b = .ok .lt → place a < place b := by
    intro a ha b hb hab
    have hsub : place a = (xs.filter (before · b)).countP (before · a) := by
      rw [List.countP_filter]
      refine List.countP_congr fun c hc => ?_
      have hcb := hmono a ha b hb ⟨.lt, hab, rfl⟩ c hc
      rw [Bool.and_eq_true]
      exact ⟨fun hca => ⟨hca, hcb hca⟩, And.left⟩
    have hself : a ∈ xs.filter (before · b) := List.mem_filter.2 ⟨ha, hbefore.2 hab⟩
    have hnot : ¬before a a := by
      rw [hbefore, h.refl a ha]
      simp
    rw [hsub, List.countP_eq_length_filter, show place b = (xs.filter (before · b)).length from
      List.countP_eq_length_filter, List.length_filter_lt_length_iff_exists]
    exact ⟨a, hself, hnot⟩
  refine ⟨place, fun a ha b hb => ?_⟩
  obtain ⟨o, hab, hba⟩ := h.swap a ha b hb
  rw [hab, Except.ok.injEq, eq_comm]
  cases o with
  | lt => exact Nat.compare_eq_lt.2 (hlt a ha b hb hab)
  | gt => exact Nat.compare_eq_gt.2 (hlt b hb a ha hba)
  | eq => exact Nat.compare_eq_eq.2 (Nat.le_antisymm (hle a ha b hb ⟨.eq, hab, rfl⟩)
      (hle b hb a ha ⟨.eq, hba, rfl⟩))

end PreorderOn

/-- Two lists of the same items that are both in order have the same key at every position. -/
theorem map_eq_of_perm {β : Type} [Ord β] [Std.LawfulEqOrd β] [Std.TransOrd β] {key : α → β}
    {xs ys : List α} (hperm : xs.Perm ys)
    (hxs : xs.Pairwise fun a b => (compare (key a) (key b)).isLE)
    (hys : ys.Pairwise fun a b => (compare (key a) (key b)).isLE) : xs.map key = ys.map key := by
  refine @List.Perm.eq_of_pairwise β (fun x y => (compare x y).isLE) _ _ ?_
    (List.pairwise_map.2 hxs) (List.pairwise_map.2 hys) (hperm.map key)
  intro x y _ _ hxy hyx
  exact Std.LawfulEqOrd.eq_of_compare (Std.OrientedCmp.isLE_antisymm hxy hyx)

end MarkdownVault.Sorting
