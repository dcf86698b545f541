import Mathlib.Data.List.Sort
import Mathlib.Data.String.Basic
import MarkdownVault.Proofs.Sorting
import MarkdownVault.Text.Basic

/-!
# The first items in an order

A merge sort is stable sorting, too. What is cut off behind the first items of a sorted list comes
no earlier in the order than any item that is kept. Items with texts of their own are sorted by
them in strictly increasing order.
-/

namespace MarkdownVault

theorem textLe_iff {a b : String} : textLe a b ↔ ¬b < a := by
  rw [textLe, Bool.or_eq_true, beq_iff_eq, decide_eq_true_eq, String.not_lt]
  exact le_iff_eq_or_lt.symm

namespace Sorting

open Std

variable {α β : Type} {cmp : α → α → Ordering} {n : Nat} {xs first others : List α}

/-- Greater keys come first. -/
def descending [Ord β] (key : α → β) (a b : α) : Ordering := compare (key b) (key a)

instance [Ord β] [TransOrd β] (key : α → β) : TransCmp (descending key) where
  eq_swap := OrientedOrd.eq_swap
  isLE_trans hab hbc := TransOrd.isLE_trans hbc hab

/-- Merging keeps the order of items that are equal: a list of them is in order as it stands. -/
theorem stablySorted_mergeSort [TransCmp cmp] (xs : List α) :
    StablySorted cmp xs (xs.mergeSort fun a b => (cmp a b).isLE) := by
  have htrans : ∀ a b c, (cmp a b).isLE → (cmp b c).isLE → (cmp a c).isLE :=
    fun _ _ _ => TransCmp.isLE_trans
  have htotal : ∀ a b, (cmp a b).isLE || (cmp b a).isLE := by
    intro a b
    rw [@OrientedCmp.eq_swap _ cmp _ b a]
    cases cmp a b <;> rfl
  have hperm := List.mergeSort_perm xs fun a b => (cmp a b).isLE
  refine ⟨hperm, List.pairwise_mergeSort htrans htotal xs, fun x => ?_⟩
  let tied := xs.filter fun y => cmp x y == .eq
  have htied : tied.Pairwise fun a b => (cmp a b).isLE := by
    apply List.pairwise_of_forall_mem_list
    intro a ha b hb
    have hxa : cmp x a = .eq := by simpa using List.of_mem_filter ha
    have hxb : cmp x b = .eq := by simpa using List.of_mem_filter hb
    rw [← TransCmp.congr_left hxa, hxb]
    rfl
  have hsub := (List.sublist_mergeSort htrans htotal htied List.filter_sublist).filter
    fun y => cmp x y == .eq
  rw [List.filter_filter] at hsub
  simp only [Bool.and_self] at hsub
  exact (hsub.eq_of_length (hperm.filter _).length_eq.symm).symm

/-- The first items of a list in an order, and the others in that order. -/
structure Foremost (cmp : α → α → Ordering) (n : Nat) (xs first others : List α) : Prop where
  sorted : StablySorted cmp xs (first ++ others)
  length : first.length = min n xs.length

theorem foremost_mergeSort [TransCmp cmp] (n : Nat) (xs : List α) :
    Foremost cmp n xs ((xs.mergeSort fun a b => (cmp a b).isLE).take n)
      ((xs.mergeSort fun a b => (cmp a b).isLE).drop n) where
  sorted := by
    rw [List.take_append_drop]
    exact stablySorted_mergeSort xs
  length := by rw [List.length_take, List.length_mergeSort]

namespace Foremost

variable (h : Foremost cmp n xs first others)
include h

/-- No item that is left out stands before one that is kept. -/
theorem ahead : ∀ a ∈ first, ∀ b ∈ others, (cmp a b).isLE :=
  (List.pairwise_append.1 h.sorted.sorted).2.2

theorem pairwise : first.Pairwise fun a b => (cmp a b).isLE :=
  (List.pairwise_append.1 h.sorted.sorted).1

end Foremost

/-- No two items have the same text, so one of any two comes before the other. -/
theorem pairwise_lt_mergeSort {text : α → String} (h : xs.Pairwise fun a b => text a ≠ text b) :
    (xs.mergeSort fun a b => textLe (text a) (text b)).Pairwise fun a b => text a < text b := by
  have htrans : ∀ a b c, textLe (text a) (text b) → textLe (text b) (text c) →
      textLe (text a) (text c) := by
    intro a b c hab hbc
    rw [textLe_iff, String.not_lt] at hab hbc ⊢
    exact hab.trans hbc
  have htotal : ∀ a b, textLe (text a) (text b) || textLe (text b) (text a) := by
    intro a b
    rw [Bool.or_eq_true, textLe_iff, textLe_iff, String.not_lt, String.not_lt]
    exact le_total _ _
  have hsorted := List.pairwise_mergeSort htrans htotal xs
  have hne := (List.mergeSort_perm xs fun a b => textLe (text a) (text b)).symm.pairwise h
    fun hab => hab.symm
  refine (hsorted.and hne).imp fun ⟨hle, hne⟩ => ?_
  exact (String.not_lt.1 (textLe_iff.1 hle)).lt_of_ne hne

end Sorting

end MarkdownVault
